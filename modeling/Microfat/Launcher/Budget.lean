/-
# Microfat.Launcher.Budget — the memory budget and the decoder that will run

`checkExtractionBudget` picks the allowance for the decoder by comparing the codec
name of the entry with the three built-in names.  The registry resolves the same
name after trimming and lower-casing it.  A name that is not spelled canonically
therefore gets the allowance of the copy buffer alone, whatever decoder it resolves
to.

* `budget_canonical`: for a canonical name an admitted extraction fits the ceiling
  with the allowance of the resolved codec;
* `budget_gap`: for any other name there is a ceiling that admits the extraction
  and lies below that sum;
* `checkExtractionBudget_covers_iff`: so the admission covers the decoder that runs
  exactly for canonical names.
-/
import Microfat.Format.Layout
import Microfat.Launcher.Dispatch
import Microfat.Theory.Sha256

namespace Microfat.Launcher

open Theory Format Codec Posix Cache

set_option autoImplicit false

/-- The name a built-in codec is registered under. -/
def canonicalName : Builtin → Bytes
  | .zstd => algorithmZstd
  | .lz4 => lit "lz4"
  | .none => lit "none"

variable {c : Builtin}

section

variable [CaseTable]

/-- A name resolves to the codec whose canonical name it has after trimming and
lower-casing. -/
theorem get_of_clean {name : Bytes} (clean : toLower (trimSpace name) = canonicalName c) :
    Codec.get name = .ok c := by
  have present : canonicalName c ≠ [] := by
    cases c <;> decide
  have found : registry.lookup (canonicalName c) = some c := by
    cases c <;> decide +kernel
  simp only [Codec.get, clean, if_neg present, found]

theorem get_canonicalName (c : Builtin) : Codec.get (canonicalName c) = .ok c := by
  have ascii : isAscii (trimSpace (canonicalName c)) = true ∧
      (trimSpace (canonicalName c)).map lowerByte = canonicalName c := by
    cases c <;> decide +kernel
  apply get_of_clean
  rw [toLower_ascii ascii.1, ascii.2]

omit [CaseTable] in
theorem decoderMemory_canonical (c : Builtin) :
    copyBuffer.toInt < (decoderMemory (canonicalName c)).toInt ∧
      (decoderMemory (canonicalName c)).toInt ≤ 2 ^ 30 := by
  cases c <;> decide +kernel

/-- A name that resolves but is not canonical falls through the admission switch. -/
theorem decoderMemory_other {name : Bytes} (resolves : Codec.get name = .ok c)
    (other : name ≠ canonicalName c) : decoderMemory name = copyBuffer := by
  have distinct : ∀ d, name ≠ canonicalName d := by
    rintro d rfl
    rw [get_canonicalName, Except.ok.injEq] at resolves
    exact other (by rw [resolves])
  have notNone : name ≠ lit "none" := distinct .none
  have notZstd : name ≠ algorithmZstd := distinct .zstd
  have notLz4 : name ≠ lit "lz4" := distinct .lz4
  rw [decoderMemory, if_neg notNone, if_neg notZstd, if_neg notLz4]

end

/-- The bytes an extraction needs with a given allowance for its decoder. -/
def extractionNeed (entry : VariantEntry) (idx : Index) (decoder : Int64) : Int :=
  entry.uncompressedSize.toInt + idx.dictionarySize.toInt + decoder.toInt +
    Cgroup.defaultMinHeadroomBytes.toInt

/-- What the check answers when the cgroup reading is `limits`. -/
def budgetAnswer (entry : VariantEntry) (idx : Index) (limits : Except Err Cgroup.Limits)
    (w : World Unit) : Option Err :=
  (Prog.runAlone (step ()) { Choice.fine with limits := limits }
    (checkExtractionBudget entry (some idx)) w).1

/-- The sizes an accepted index guarantees. -/
structure Sized (entry : VariantEntry) (idx : Index) : Prop where
  payload : 1 ≤ entry.uncompressedSize.toInt ∧ entry.uncompressedSize.toInt ≤ maxPayloadSize
  dictionary : 0 ≤ idx.dictionarySize.toInt ∧ idx.dictionarySize.toInt ≤ maxDictionarySize

variable {idx : Index} {entry : VariantEntry}

theorem accepted_sized [CaseTable] {H : Sha256} {file : Bytes} {totalSize : Int64}
    (accepted : readTrailerAndIndex H file totalSize = .ok idx) (mem : entry ∈ idx.variants) :
    Sized entry idx := by
  refine ⟨(readTrailerAndIndex_entries accepted entry mem).1, ?_⟩
  obtain ⟨-, before, enc, o, -, -, -, -, bounds⟩ :=
    (readTrailerAndIndex_ends H file totalSize).returns accepted
  obtain ⟨lastEnd, ok⟩ := validateBounds_ok bounds
  cases ok.dictionary with
  | none empty => rw [empty]; decide
  | some _ positive small => exact ⟨by omega, small⟩

theorem budgetAnswer_eq (sized : Sized entry idx) (limits : Except Err Cgroup.Limits) (w : World Unit) :
    budgetAnswer entry idx limits w = admitExtraction entry idx.dictionarySize limits := by
  have payload : ¬ ((decide (entry.uncompressedSize.toInt ≤ 0) ||
      decide (maxPayloadSize < entry.uncompressedSize.toInt)) = true) := by
    have := sized.payload
    simp only [Bool.or_eq_true, decide_eq_true_eq, not_or, Int.not_le, Int.not_lt]
    omega
  have dictionary : ¬ ((decide (idx.dictionarySize.toInt < 0) ||
      decide (maxDictionarySize < idx.dictionarySize.toInt)) = true) := by
    have := sized.dictionary
    simp only [Bool.or_eq_true, decide_eq_true_eq, not_or, Int.not_lt]
    omega
  rw [budgetAnswer, checkExtractionBudget, if_neg payload]
  simp only [Option.map_some, Option.getD_some, if_neg dictionary]
  rfl

/-- A reading of known version with a finite ceiling below the unlimited threshold. -/
structure Ceiling (limits : Cgroup.Limits) (limit : Int64) : Prop where
  version : limits.cgroupVersion ≠ Cgroup.versionUnknown
  effective : limits.effectiveMemoryLimit = (limit, true)
  finite : limit.toInt < Cgroup.unlimitedCgroupV1MemoryThreshold.toInt

/-- Under a finite ceiling an extraction is admitted exactly when its need fits. -/
theorem admitExtraction_none_iff (sized : Sized entry idx) {limits : Cgroup.Limits} {limit : Int64}
    (ceiling : Ceiling limits limit)
    (allowance : 0 ≤ (decoderMemory entry.compression).toInt ∧
      (decoderMemory entry.compression).toInt ≤ 2 ^ 30) :
    admitExtraction entry idx.dictionarySize (.ok limits) = none ↔
      extractionNeed entry idx (decoderMemory entry.compression) ≤ limit.toInt := by
  have headroom : Cgroup.defaultMinHeadroomBytes.toInt = 64 * 1024 * 1024 := by decide
  have payload := sized.payload
  have dictionary := sized.dictionary
  simp only [maxPayloadSize, maxDictionarySize] at payload dictionary
  obtain ⟨estimate, sum⟩ : ∃ estimate, Cgroup.extractionMemory entry.uncompressedSize
      idx.dictionarySize (decoderMemory entry.compression) Cgroup.defaultMinHeadroomBytes =
      .ok estimate := by
    refine Cgroup.addAll_fits (by decide) ?_ ?_
    · intro v mem
      simp only [List.mem_cons, List.not_mem_nil, or_false] at mem
      rcases mem with rfl | rfl | rfl | rfl <;> omega
    · simp only [List.map_cons, List.map_nil, List.sum_cons, List.sum_nil, Int64.toInt_zero]
      omega
  have value := Cgroup.extractionMemory_ok sum
  have belowThreshold : (!true || decide (Cgroup.unlimitedCgroupV1MemoryThreshold.toInt ≤ limit.toInt)) =
      false := by
    have := ceiling.finite
    simp only [Bool.not_true, Bool.false_or, decide_eq_false_iff_not]
    omega
  simp only [admitExtraction, if_neg ceiling.version, ceiling.effective, belowThreshold, sum,
    Bool.false_eq_true, if_false, extractionNeed]
  rw [← value]
  split
  · simp only [reduceCtorEq, false_iff]
    omega
  · simp only [true_iff]
    omega

/-- A process with nothing open and nothing in its log. -/
def idleWorld : World Unit :=
  { dir := fun _ => none
    inode := fun _ => ⟨.regular, 0, 0, [], false, false⟩
    nextIno := 0
    file := fun _ => none
    nextFd := 3
    euid := fun _ => 1000
    owner := fun _ => none
    creator := fun _ => none
    frozen := fun _ => false
    unlinkFailed := fun _ _ => false
    log := [] }

section

variable [CaseTable]

/-- The admission of an entry covers the decoder its codec name resolves to: under
every finite ceiling an admitted extraction fits with that decoder's allowance, and
the sum is an `int64`. -/
def Covers (entry : VariantEntry) (idx : Index) (c : Builtin) : Prop :=
  ∀ (w : World Unit) (limits : Cgroup.Limits) (limit : Int64), Ceiling limits limit →
    budgetAnswer entry idx (.ok limits) w = none →
    extractionNeed entry idx (decoderMemory (canonicalName c)) ≤ limit.toInt ∧
      InInt64 (extractionNeed entry idx (decoderMemory (canonicalName c)))

omit [CaseTable] in
theorem budget_canonical (sized : Sized entry idx) (canonical : entry.compression = canonicalName c) :
    Covers entry idx c := by
  intro w limits limit ceiling admitted
  have allowance := decoderMemory_canonical c
  have buffer : (0 : Int) ≤ copyBuffer.toInt := by decide
  rw [budgetAnswer_eq sized, admitExtraction_none_iff sized ceiling
    (by rw [canonical]; omega), canonical] at admitted
  have small := limit.toInt_lt
  have payload := sized.payload
  have dictionary := sized.dictionary
  have headroom : Cgroup.defaultMinHeadroomBytes.toInt = 64 * 1024 * 1024 := by decide
  refine ⟨admitted, ?_, by omega⟩
  rw [extractionNeed]
  omega

theorem budget_gap (sized : Sized entry idx) (resolves : Codec.get entry.compression = .ok c)
    (other : entry.compression ≠ canonicalName c) (w : World Unit) :
    ∃ limits limit, Ceiling limits limit ∧
      budgetAnswer entry idx (.ok limits) w = none ∧
      limit.toInt < extractionNeed entry idx (decoderMemory (canonicalName c)) := by
  have switch := decoderMemory_other resolves other
  have allowance := decoderMemory_canonical c
  have buffer : copyBuffer.toInt = 32 * 1024 := by decide
  have headroom : Cgroup.defaultMinHeadroomBytes.toInt = 64 * 1024 * 1024 := by decide
  have threshold : Cgroup.unlimitedCgroupV1MemoryThreshold.toInt = 2 ^ 50 := by decide +kernel
  have payload := sized.payload
  have dictionary := sized.dictionary
  simp only [maxPayloadSize, maxDictionarySize] at payload dictionary
  -- the ceiling that is exactly what the admission switch asks for
  have value : (Int64.ofInt (extractionNeed entry idx copyBuffer)).toInt =
      extractionNeed entry idx copyBuffer := by
    apply toInt_ofInt64
    rw [extractionNeed]
    exact ⟨by omega, by omega⟩
  have need : extractionNeed entry idx copyBuffer = entry.uncompressedSize.toInt +
      idx.dictionarySize.toInt + 32 * 1024 + 64 * 1024 * 1024 := by
    rw [extractionNeed, buffer, headroom]
  generalize Int64.ofInt (extractionNeed entry idx copyBuffer) = limit at value
  have positive : 0 < limit.toInt := by omega
  have ceiling : Ceiling ⟨2, limit, 0, limit, true, false⟩ limit := by
    have known : (2 : Int) ≠ Cgroup.versionUnknown := by decide
    refine ⟨known, ?_, by omega⟩
    have zero : (0 : Int64).toInt = 0 := by decide
    simp [Cgroup.Limits.effectiveMemoryLimit, Cgroup.Limits.hasMemoryLimit,
      Cgroup.Limits.hasMemoryHigh, positive, zero]
    omega
  refine ⟨_, limit, ceiling, ?_, ?_⟩
  · rw [budgetAnswer_eq sized, admitExtraction_none_iff sized ceiling (by rw [switch, buffer]; omega),
      switch]
    omega
  · rw [value, extractionNeed, extractionNeed]
    omega

/-- **The admission covers the resolved decoder exactly for canonical names.** -/
theorem checkExtractionBudget_covers_iff (H : Sha256) (file : Bytes) (totalSize : Int64) (idx : Index)
    (entry : VariantEntry) (c : Builtin) (accepted : readTrailerAndIndex H file totalSize = .ok idx)
    (mem : entry ∈ idx.variants) (resolves : Codec.get entry.compression = .ok c) :
    Covers entry idx c ↔ entry.compression = canonicalName c := by
  have sized := accepted_sized accepted mem
  refine ⟨fun covers => ?_, budget_canonical sized⟩
  by_contra other
  obtain ⟨limits, limit, ceiling, admitted, below⟩ := budget_gap sized resolves other idleWorld
  have enough := (covers idleWorld limits limit ceiling admitted).1
  omega

end

section

local instance budgetTable : CaseTable := CaseTable.ascii

/-- One stored byte under the codec name `name`, behind a stub of one byte. -/
def namedIndex (name : Bytes) : Index :=
  { version := 2, appName := lit "app", targetOS := lit "linux", targetArch := lit "amd64",
    createdUnix := 0, dictionaryOffset := 0, dictionarySize := 0, dictionarySHA256 := [],
    dictionaryID := 0,
    variants := [⟨lit "v1", 1, 1, 7, List.replicate 64 97, name⟩] }

def namedFile (name : Bytes) : Bytes :=
  [0, 9] ++ encodeIndex (namedIndex name) ++ encodeTrailer sha256 2 (encodeIndex (namedIndex name))

/-- A container whose only variant names its codec `ZSTD` is read and its codec
resolves to zstd, but the admission does not cover the zstd decoder. -/
theorem covers_upperCase_fails :
    readTrailerAndIndex sha256 (namedFile (lit "ZSTD")) 209 = .ok (namedIndex (lit "ZSTD")) ∧
    ∃ entry ∈ (namedIndex (lit "ZSTD")).variants, Codec.get entry.compression = .ok .zstd ∧
      ¬ Covers entry (namedIndex (lit "ZSTD")) .zstd := by
  have accepted : readTrailerAndIndex sha256 (namedFile (lit "ZSTD")) 209 =
      .ok (namedIndex (lit "ZSTD")) := Eval.eq_ok_of_toOption (by decide +kernel)
  have mem : (⟨lit "v1", 1, 1, 7, List.replicate 64 97, lit "ZSTD"⟩ : VariantEntry) ∈
      (namedIndex (lit "ZSTD")).variants := List.mem_singleton.mpr rfl
  have resolves : Codec.get (lit "ZSTD") = .ok .zstd := get_of_clean (by decide +kernel)
  refine ⟨accepted, _, mem, resolves, fun covers => ?_⟩
  obtain ⟨limits, limit, ceiling, admitted, below⟩ :=
    budget_gap (accepted_sized accepted mem) resolves (by decide +kernel) idleWorld
  have enough := (covers idleWorld limits limit ceiling admitted).1
  omega

theorem covers_lowerCase : ∃ entry ∈ (namedIndex algorithmZstd).variants,
    Covers entry (namedIndex algorithmZstd) .zstd := by
  have accepted : readTrailerAndIndex sha256 (namedFile algorithmZstd) 209 =
      .ok (namedIndex algorithmZstd) := Eval.eq_ok_of_toOption (by decide +kernel)
  have mem : (⟨lit "v1", 1, 1, 7, List.replicate 64 97, algorithmZstd⟩ : VariantEntry) ∈
      (namedIndex algorithmZstd).variants := List.mem_singleton.mpr rfl
  exact ⟨_, mem, (checkExtractionBudget_covers_iff sha256 _ 209 _ _ .zstd accepted mem
    (get_canonicalName .zstd)).mpr rfl⟩

end

end Microfat.Launcher
