/-
# Microfat.Codec.Registry — the built-in codecs and bounded decompression

The registry holds `zstd`, `lz4` and `none`.  The two decoders are third-party
code: `Decoders` is what they deliver for a frame, as an arbitrary deterministic
stream.  All three codecs copy that stream through a writer that is bounded by
the declared size and compare the number of bytes at the end
(`decompressStream`).

* `decompress_kept`, `decompress_length`: a decompression that returned no error
  wrote exactly the declared number of bytes;
* `decompress_sim`: the outcome does not depend on which writer, among writers
  that answer alike, the bytes go to.
-/
import Microfat.Theory.Eval
import Microfat.Theory.Stream
import Microfat.Theory.Text
import Microfat.Sentinels

namespace Microfat.Codec

open Theory

set_option autoImplicit false

def defaultMaxPayloadSize : Int := 1024 * 1024 * 1024
def noneCopyBufferSize : Nat := 128 * 1024

inductive Builtin where
  | zstd
  | lz4
  | none
  deriving DecidableEq, Repr

/-- What a reader over a compressed frame delivers: its bytes, and the error a read
past them ends with, if it is not the end of the frame. -/
structure Source where
  bytes : Bytes
  fault : Option Err

/-- What the decoders deliver: opening a frame can fail, and a stream can end
with an error. -/
structure Decoders where
  zstd : (dict : Bytes) → (frame : Source) → Except Err (ByteStream Err)
  lz4 : (frame : Source) → ByteStream Err

def algorithmZstd : Bytes := lit "zstd"

/-- The global registry after `init`. -/
def registry : List (Bytes × Builtin) :=
  [(algorithmZstd, .zstd), (lit "lz4", .lz4), (lit "none", .none)]

def get [CaseTable] (name : Bytes) : Except Err Builtin :=
  let cleanName := toLower (trimSpace name)
  let cleanName := if cleanName = [] then algorithmZstd else cleanName
  match registry.lookup cleanName with
  | some c => .ok c
  | none => .error (.about .errUnsupportedCodec
      [.quoted name, .text " (supported: ", .text "lz4, none, zstd", .text ")"])

/-- The lookup of both callers, with its error dressed. -/
def lookupFor [CaseTable] (compression level : Bytes) : Except Err Builtin :=
  (get compression).mapError fun err =>
    .wrap [.text "lookup codec ", .quoted compression, .text " for variant ", .str level,
      .text ": ", .cause] [err]

/-- The reads of `io.CopyBuffer` over an in-memory section: `n` bytes at a time. -/
def pieces (n : Nat) : Nat → Bytes → List Bytes
  | 0, _ => []
  | _ + 1, [] => []
  | fuel + 1, b :: rest => (b :: rest).take n :: pieces n fuel ((b :: rest).drop n)

theorem pieces_flatten {n : Nat} (positive : 0 < n) : ∀ {fuel : Nat} {s : Bytes}, s.length ≤ fuel →
    (pieces n fuel s).flatten = s := by
  intro fuel
  induction fuel with
  | zero =>
    intro s short
    rw [List.eq_nil_of_length_eq_zero (Nat.le_zero.mp short)]
    rfl
  | succ fuel ih =>
    intro s short
    cases s with
    | nil => rfl
    | cons b rest =>
      rw [pieces, List.flatten_cons, ih, List.take_append_drop]
      simp only [List.length_drop, List.length_cons] at *
      omega

section

variable {σ : Type} (w : ByteWriter σ Err)

def shortWrite : Err := .sentinel .ioErrShortWrite

/-- `newBoundedWriter`: the limit, and the error of a write beyond it. -/
def boundedWriter (limit : Int) : ByteWriter (σ × Nat) Err :=
  let limit := if limit < 0 || defaultMaxPayloadSize < limit then defaultMaxPayloadSize else limit
  bounded (.about .errSizeMismatch
    [.text "payload exceeds limit of ", .int limit, .text " bytes"]) limit.toNat w

/-- The tail of every `Decompress`: check the size, copy what was opened, then compare the
number of bytes that were copied with the size. -/
def decompressCopied {ρ : Type} (copied : ρ → (σ × Nat) × Option Err) (s : σ) (uncompressedSize : Int64)
    (opened : Except Err ρ) : σ × Option Err :=
  if uncompressedSize.toInt < 0 then
    (s, some (.about .errSizeMismatch
      [.text "invalid negative uncompressed size ", .int uncompressedSize.toInt]))
  else if defaultMaxPayloadSize < uncompressedSize.toInt then
    (s, some (.about .errSizeMismatch [.text "uncompressed size ", .int uncompressedSize.toInt,
      .text " exceeds safety limit ", .int defaultMaxPayloadSize]))
  else
    match opened with
    | .error err => (s, some err)
    | .ok reader =>
      let result := copied reader
      match result.2 with
      | some copyErr =>
        if Err.is copyErr .errSizeMismatch then (result.1.1, some copyErr)
        else (result.1.1, some (.wrap [.cause, .text ": ", .cause]
          [.sentinel .errDecompressionFailed, copyErr]))
      | none =>
        if (result.1.2 : Int) ≠ uncompressedSize.toInt then
          (result.1.1, some (.about .errSizeMismatch [.text "expected ",
            .int uncompressedSize.toInt, .text " bytes, got ", .int result.1.2]))
        else (result.1.1, none)

def decompressStream (s : σ) (uncompressedSize : Int64) (opened : Except Err (ByteStream Err)) :
    σ × Option Err :=
  decompressCopied (copy shortWrite (boundedWriter w uncompressedSize.toInt) (s, 0)) s uncompressedSize opened

variable (D : Decoders)

/-- `ZstdCodec.DecompressWithDict`. -/
def zstdDecompressWithDict (s : σ) (frame : Source) (uncompressedSize : Int64) (dict : Bytes) :
    σ × Option Err :=
  decompressStream w s uncompressedSize <|
    (D.zstd dict frame).mapError fun err =>
      .wrap [.cause, .text ": initializing zstd reader: ", .cause]
        [.sentinel .errDecompressionFailed, err]

/-- `LZ4Codec.Decompress`. -/
def lz4Decompress (s : σ) (frame : Source) (uncompressedSize : Int64) : σ × Option Err :=
  decompressStream w s uncompressedSize (.ok (D.lz4 frame))

/-- `NoneCodec.Decompress`; a section reader has no `WriteTo`, so the pieces are
those of the scratch buffer. -/
def noneDecompress (s : σ) (frame : Source) (uncompressedSize : Int64) : σ × Option Err :=
  decompressStream w s uncompressedSize
    (.ok ⟨pieces noneCopyBufferSize frame.bytes.length frame.bytes, frame.fault⟩)

/-- `Codec.Decompress`. -/
def decompress (c : Builtin) (s : σ) (frame : Source) (uncompressedSize : Int64) : σ × Option Err :=
  match c with
  | .zstd => zstdDecompressWithDict w D s frame uncompressedSize []
  | .lz4 => lz4Decompress w D s frame uncompressedSize
  | .none => noneDecompress w s frame uncompressedSize

/-- Only `zstd` is a `DictCodec`. -/
def decompressWithOptionalDict (c : Builtin) (s : σ) (frame : Source) (uncompressedSize : Int64)
    (dict : Bytes) : σ × Option Err :=
  if dict ≠ [] && c = .zstd then zstdDecompressWithDict w D s frame uncompressedSize dict
  else decompress w D c s frame uncompressedSize

end

/-- Every decompression is `decompressStream` of what its decoder opened. -/
def opened (D : Decoders) (c : Builtin) (frame : Source) (dict : Bytes) : Except Err (ByteStream Err) :=
  match c with
  | .zstd => (D.zstd dict frame).mapError fun err =>
    .wrap [.cause, .text ": initializing zstd reader: ", .cause]
      [.sentinel .errDecompressionFailed, err]
  | .lz4 => .ok (D.lz4 frame)
  | .none => .ok ⟨pieces noneCopyBufferSize frame.bytes.length frame.bytes, frame.fault⟩

section

variable {σ τ : Type} {w : ByteWriter σ Err} {v : ByteWriter τ Err} {D : Decoders}

theorem decompressWithOptionalDict_eq (c : Builtin) (s : σ) (frame : Source) (size : Int64)
    (dict : Bytes) :
    decompressWithOptionalDict w D c s frame size dict =
      decompressStream w s size (opened D c frame dict) := by
  unfold decompressWithOptionalDict
  by_cases none : dict = []
  · subst none
    cases c <;> rfl
  · cases c <;> simp [none] <;> rfl

variable {s : σ} {size : Int64}

/-- The size guards of `decompressStream` passed and the copy was complete. -/
theorem decompressStream_ok {o : Except Err (ByteStream Err)}
    (done : (decompressStream w s size o).2 = none) :
    ∃ reader result, copy shortWrite (boundedWriter w size.toInt) (s, 0) reader = (result, none) ∧
      (result.2 : Int) = size.toInt ∧ (decompressStream w s size o).1 = result.1 := by
  unfold decompressStream decompressCopied at done ⊢
  by_cases negative : size.toInt < 0
  · rw [if_pos negative] at done
    cases done
  · rw [if_neg negative] at done ⊢
    by_cases large : defaultMaxPayloadSize < size.toInt
    · rw [if_pos large] at done
      cases done
    · rw [if_neg large] at done ⊢
      cases o with
      | error err => cases done
      | ok reader =>
        dsimp only at done ⊢
        cases ended : (copy shortWrite (boundedWriter w size.toInt) (s, 0) reader).2 with
        | some copyErr =>
          rw [ended] at done
          dsimp only at done
          split at done <;> cases done
        | none =>
          rw [ended] at done
          dsimp only at done ⊢
          split at done
          · cases done
          · rename_i same
            rw [if_neg same]
            exact ⟨reader, _, Prod.ext rfl ended, Decidable.not_not.mp same, rfl⟩

variable {c : Builtin} {frame : Source} {dict : Bytes}

/-- A property that complete writes keep holds after a successful decompression. -/
theorem decompress_kept {P : σ → Prop} (kept : KeptBy w P) (start : P s)
    (done : (decompressWithOptionalDict w D c s frame size dict).2 = none) :
    P (decompressWithOptionalDict w D c s frame size dict).1 := by
  rw [decompressWithOptionalDict_eq] at done ⊢
  obtain ⟨reader, result, copied, -, state⟩ := decompressStream_ok done
  have inner : KeptBy (boundedWriter w size.toInt) fun t => P t.1 := bounded_kept kept
  have after := copy_ok (s := (s, 0)) inner start (congrArg Prod.snd copied)
  rw [copied] at after
  rw [state]
  exact after

/-- **A successful decompression stored exactly the declared number of bytes.** -/
theorem decompress_length {stored : σ → Bytes} (keeps : Keeps w stored)
    (done : (decompressWithOptionalDict w D c s frame size dict).2 = none) :
    ((stored (decompressWithOptionalDict w D c s frame size dict).1).length : Int) =
      (stored s).length + size.toInt := by
  rw [decompressWithOptionalDict_eq] at done ⊢
  obtain ⟨reader, result, copied, count, state⟩ := decompressStream_ok done
  have counts : KeptBy (boundedWriter w size.toInt)
      fun t => (stored t.1).length = (stored s).length + t.2 := bounded_counts keeps _
  have after := copy_ok (s := (s, 0)) counts rfl (congrArg Prod.snd copied)
  rw [copied] at after
  rw [state, after, Int.natCast_add, count]

/-- Copies that answer alike give the same outcome. -/
theorem decompressCopied_sim {ρ : Type} {copied : ρ → (σ × Nat) × Option Err} {copied' : ρ → (τ × Nat) × Option Err}
    {o : Except Err ρ} {R : σ → τ → Prop} {t : τ} (related : R s t)
    (same : ∀ r, (R (copied r).1.1 (copied' r).1.1 ∧ (copied r).1.2 = (copied' r).1.2) ∧
      (copied r).2 = (copied' r).2) :
    R (decompressCopied copied s size o).1 (decompressCopied copied' t size o).1 ∧
      (decompressCopied copied s size o).2 = (decompressCopied copied' t size o).2 := by
  unfold decompressCopied
  split
  · exact ⟨related, rfl⟩
  · split
    · exact ⟨related, rfl⟩
    · cases o with
      | error err => exact ⟨related, rfl⟩
      | ok reader =>
        obtain ⟨⟨state, count⟩, error⟩ := same reader
        dsimp only
        rw [error, count]
        split
        · split
          · exact ⟨state, rfl⟩
          · exact ⟨state, rfl⟩
        · split
          · exact ⟨state, rfl⟩
          · exact ⟨state, rfl⟩

/-- **The outcome of a decompression is the same for writers that answer alike.** -/
theorem decompress_sim {R : σ → τ → Prop} (same : Answers w v R) {t : τ} (related : R s t) :
    R (decompressWithOptionalDict w D c s frame size dict).1
        (decompressWithOptionalDict v D c t frame size dict).1 ∧
      (decompressWithOptionalDict w D c s frame size dict).2 =
        (decompressWithOptionalDict v D c t frame size dict).2 := by
  rw [decompressWithOptionalDict_eq, decompressWithOptionalDict_eq]
  exact decompressCopied_sim related fun _ =>
    copy_sim (s := (s, 0)) (t := (t, 0)) (bounded_answers same) ⟨related, rfl⟩

end

end Microfat.Codec
