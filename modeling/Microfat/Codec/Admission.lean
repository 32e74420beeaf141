/-
# Microfat.Codec.Admission — levels, and how much an encoder takes

The part of the codec package that other packages plan with: what a level text means, how
many LZ4 blocks are compressed at once, and the workspace to reserve for that.  The reserve
is computed before the resources are known that decide the concurrency;
`lz4EncoderWorkspaceBytes_covers` says that it is enough for any of them.
-/
import Microfat.Codec.Resolve
import Microfat.Theory.Strconv

namespace Microfat.Codec

open Theory

set_option autoImplicit false

/-! ## Levels -/

section Levels

variable [CaseTable]

/-- `ParseLevelInt`; an empty text is the default. -/
def parseLevelInt (level : Bytes) (defaultVal : Int) : Except Err Int :=
  let trimmed := trimSpace level
  if trimmed = [] then .ok defaultVal
  else
    match parseInt trimmed with
    | some val => .ok val
    | none => .error (.about .errInvalidCompressionLevel [.quoted level])

/-- `zstd.EncoderLevel`. -/
inductive EncoderLevel where
  | speedFastest
  | speedDefault
  | speedBetterCompression
  | speedBestCompression
  deriving DecidableEq, Repr

/-- The names the library gives its levels (`EncoderLevel.String`). -/
class LevelNames where
  string : EncoderLevel → Bytes

/-- `ZstdCodec.MapLevel`. -/
def zstdMapLevel (level : Bytes) : Except Err EncoderLevel :=
  let cleanLevel := toLower (trimSpace level)
  if cleanLevel ∈ [[], lit "default", lit "standard"] then .ok .speedDefault
  else if cleanLevel ∈ [lit "fastest", lit "fast", lit "speed"] then .ok .speedFastest
  else if cleanLevel = lit "better" then .ok .speedBetterCompression
  else if cleanLevel ∈ [lit "best", lit "max"] then .ok .speedBestCompression
  else
    (parseLevelInt level 0).map fun num =>
      if num ≤ 1 then .speedFastest
      else if num = 2 then .speedDefault
      else if 3 ≤ num && num ≤ 9 then .speedBetterCompression
      else .speedBestCompression

end Levels

/-! ## LZ4 blocks -/

def lz4DefaultBlockSize : Int64 := 4 * 1024 * 1024
def maxLZ4BlockConcurrency : Int := 8
def singleThreadConcurrency : Int := 1
def lowMemorySingleThreadCeiling : Int := 256 * 1024 * 1024
def lz4HeadroomReserveBytes : Int64 := 64 * 1024 * 1024
def lz4BytesPerWorker : Int := 16 * 1024 * 1024

structure CodecResources where
  effectiveCPUs : Int64
  memoryBytes : Int64
  hasMemoryCap : Bool

/-- How many blocks are compressed at once; the sums wrap around as the machine's do. -/
def computeLZ4Concurrency (payloadLen : Int64) (res : CodecResources) : Int :=
  if payloadLen.toInt ≤ lz4DefaultBlockSize.toInt || res.effectiveCPUs.toInt ≤ singleThreadConcurrency then
    singleThreadConcurrency
  else
    let avail := res.memoryBytes - payloadLen - lz4HeadroomReserveBytes
    if res.hasMemoryCap && res.memoryBytes.toInt < lowMemorySingleThreadCeiling then singleThreadConcurrency
    else if res.hasMemoryCap && avail.toInt < lz4BytesPerWorker then singleThreadConcurrency
    else
      let cpus := if res.hasMemoryCap then min res.effectiveCPUs.toInt (avail.toInt / lz4BytesPerWorker)
        else res.effectiveCPUs.toInt
      let blocks := (payloadLen + lz4DefaultBlockSize - 1) / lz4DefaultBlockSize
      max (min (min cpus blocks.toInt) maxLZ4BlockConcurrency) singleThreadConcurrency

theorem computeLZ4Concurrency_le (payloadLen : Int64) (res : CodecResources) :
    computeLZ4Concurrency payloadLen res ≤ maxLZ4BlockConcurrency := by
  have one : singleThreadConcurrency ≤ maxLZ4BlockConcurrency := by decide
  unfold computeLZ4Concurrency
  dsimp only
  split
  · exact one
  · split
    · exact one
    · split
      · exact one
      · exact max_le (min_le_right _ _) one

/-- `LZ4EncoderWorkspaceBytes`. -/
def lz4EncoderWorkspaceBytes (payloadLen : Int64) : Eval Err Int64 :=
  if payloadLen.toInt ≤ lz4DefaultBlockSize.toInt then exact64 lz4BytesPerWorker
  else do
    let last ← sub64 payloadLen 1
    let blocks ← exact64 (last.toInt / lz4DefaultBlockSize.toInt + 1)
    let inFlightBlocks := min blocks.toInt (maxLZ4BlockConcurrency + 1)
    exact64 ((inFlightBlocks + 1) * lz4BytesPerWorker)

/-- The blocks of a payload. -/
def lz4Blocks (payloadLen : Int) : Int := (payloadLen - 1) / lz4DefaultBlockSize.toInt + 1

/-- The buffers of an encoder over several blocks: those queued and the one draining, as far
as there are blocks, and a pending one. -/
def lz4Buffers (payloadLen concurrency : Int) : Int := min (concurrency + 1) (lz4Blocks payloadLen) + 1

theorem lz4DefaultBlockSize_toInt : lz4DefaultBlockSize.toInt = 4194304 := by decide

theorem lz4EncoderWorkspaceBytes_eq (payloadLen : Int64) :
    ∃ bytes : Int64, lz4EncoderWorkspaceBytes payloadLen = .ok bytes ∧
      bytes.toInt = if payloadLen.toInt ≤ lz4DefaultBlockSize.toInt then lz4BytesPerWorker
        else lz4Buffers payloadLen.toInt maxLZ4BlockConcurrency * lz4BytesPerWorker := by
  have size := lz4DefaultBlockSize_toInt
  unfold lz4EncoderWorkspaceBytes
  split
  · have fits : InInt64 lz4BytesPerWorker := by decide
    exact ⟨_, exact64_of_fits fits, toInt_ofInt64 fits⟩
  · rename_i several
    have one : (1 : Int64).toInt = 1 := by decide
    have top := payloadLen.toInt_lt
    obtain ⟨last, subtracted, last_eq⟩ : ∃ c, (sub64 payloadLen 1 : Eval Err Int64) = .ok c ∧
        c.toInt = payloadLen.toInt - 1 :=
      one ▸ sub64_ordered (by omega) (by omega)
    have positive : 0 ≤ last.toInt / lz4DefaultBlockSize.toInt := by
      rw [size]
      omega
    have fits : InInt64 (last.toInt / lz4DefaultBlockSize.toInt + 1) := by
      rw [size]
      exact ⟨by omega, by omega⟩
    have blocks_eq := toInt_ofInt64 fits
    have small : InInt64 ((min (Int64.ofInt (last.toInt / lz4DefaultBlockSize.toInt + 1)).toInt
        (maxLZ4BlockConcurrency + 1) + 1) * lz4BytesPerWorker) := by
      simp only [maxLZ4BlockConcurrency, lz4BytesPerWorker]
      exact ⟨by omega, by omega⟩
    rw [subtracted, Eval.ok_bind, exact64_of_fits fits, Eval.ok_bind]
    refine ⟨_, exact64_of_fits small, ?_⟩
    rw [toInt_ofInt64 small, blocks_eq, last_eq, lz4Buffers, lz4Blocks, min_comm]

/-- **The reserve is enough for any concurrency.** -/
theorem lz4EncoderWorkspaceBytes_covers {payloadLen bytes : Int64} (several : lz4DefaultBlockSize.toInt < payloadLen.toInt)
    (reserved : lz4EncoderWorkspaceBytes payloadLen = .ok bytes) (res : CodecResources) :
    lz4Buffers payloadLen.toInt (computeLZ4Concurrency payloadLen res) * lz4BytesPerWorker ≤ bytes.toInt := by
  obtain ⟨bytes', same, value⟩ := lz4EncoderWorkspaceBytes_eq payloadLen
  rw [reserved] at same
  cases same
  rw [value, if_neg (by omega)]
  have most := computeLZ4Concurrency_le payloadLen res
  have fewer : lz4Buffers payloadLen.toInt (computeLZ4Concurrency payloadLen res) ≤
      lz4Buffers payloadLen.toInt maxLZ4BlockConcurrency := by
    unfold lz4Buffers
    omega
  exact mul_le_mul_of_nonneg_right fewer (by decide)

end Microfat.Codec
