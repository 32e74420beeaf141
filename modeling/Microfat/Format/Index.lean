/-
# Microfat.Format.Index — the variant index and its bound checks

The index is the manifest of a container: where the shared dictionary and each
compressed variant lie, how large they are and what they hash to.  Offsets and
sizes are signed 64-bit words read from the file, so `validateBounds` is written
with the checked arithmetic of `Theory.Eval`: a comparison that would wrap shows
as a trap instead of a silently wrong answer.
-/
import Microfat.Theory.Eval
import Microfat.Microarch.Levels

namespace Microfat.Format

open Theory Microarch
open Eval (bind_ok guard_pass ok_bind)

set_option autoImplicit false

def trailerSize : Nat := 56
def magicLen : Nat := 8
def magicString : Bytes := lit "\x00\xFA\x7FMICRO"
def indexMagicV2 : Bytes := lit "\x00\xFAM2"
def formatVersion1 : Int := 1
def formatVersion2 : Int := 2
def maxIndexSize : Nat := 1024 * 1024
def maxPayloadSize : Int := 1024 * 1024 * 1024
def maxDictionarySize : Int := 1024 * 1024
def defaultCompressionAlgorithm : Bytes := lit "zstd"

structure VariantEntry where
  level : Bytes
  offset : Int64
  compressedSize : Int64
  uncompressedSize : Int64
  sha256 : Bytes
  compression : Bytes
  deriving DecidableEq

structure Index where
  version : Int
  appName : Bytes
  targetOS : Bytes
  targetArch : Bytes
  createdUnix : Int64
  dictionaryOffset : Int64
  dictionarySize : Int64
  dictionarySHA256 : Bytes
  dictionaryID : UInt32
  variants : List VariantEntry
  deriving DecidableEq

def isHexChar (c : UInt8) : Bool := between c 48 57 || between c 97 102 || between c 65 70

/-- An empty string is valid: the dictionary digest is optional. -/
def validateChecksum (s : Bytes) : Bool :=
  if s = [] then true
  else if s.length ≠ 64 then false
  else s.all isHexChar

theorem isHexChar_lower {c : UInt8} (hex : isHexChar c = true) :
    c.toNat < 128 ∧ isHexChar (lowerByte c) = true := by
  simp only [isHexChar, between, lowerByte, Bool.or_eq_true, Bool.and_eq_true,
    decide_eq_true_eq] at hex ⊢
  refine ⟨by omega, ?_⟩
  split
  · rename_i upper
    rw [UInt8.toNat_add]
    simp only [UInt8.reduceToNat]
    omega
  · omega

variable {s : Bytes}

/-- A digest that passes the check is empty or 64 hexadecimal digits. -/
theorem validateChecksum_iff :
    validateChecksum s = true ↔ s = [] ∨ s.length = 64 ∧ ∀ c ∈ s, isHexChar c = true := by
  unfold validateChecksum
  split
  · simp [*]
  · split <;> simp_all

theorem validateChecksum_ascii (valid : validateChecksum s = true) :
    isAscii s = true := by
  rcases validateChecksum_iff.mp valid with rfl | ⟨-, hex⟩
  · rfl
  · rw [isAscii, List.all_eq_true]
    intro c mem
    simpa using (isHexChar_lower (hex c mem)).1

/-- Lower-casing keeps a digest valid. -/
theorem toLower_digest [CaseTable] (present : s ≠ []) (valid : validateChecksum s = true) :
    toLower s ≠ [] ∧ validateChecksum (toLower s) = true := by
  rw [toLower_ascii (validateChecksum_ascii valid)]
  rcases validateChecksum_iff.mp valid with empty | ⟨width, hex⟩
  · exact absurd empty present
  · refine ⟨by simpa using present, validateChecksum_iff.mpr (.inr ⟨by simpa using width, ?_⟩)⟩
    intro c mem
    obtain ⟨d, inside, rfl⟩ := List.mem_map.mp mem
    exact (isHexChar_lower (hex d inside)).2

/-! ## Errors that mean a missing trailer -/

def isMissingTrailerError (err : Err) : Bool :=
  Err.is err .errBinaryTooSmall || Err.is err .errInvalidMagic

/-- The error belongs to another class. -/
def Other (err : Err) : Prop := isMissingTrailerError err = false

theorem other_about {s : Sentinel} (message : List Part)
    (other : (Sentinel.same s .errBinaryTooSmall || Sentinel.same s .errInvalidMagic) = false) :
    Other (.about s message) := by
  rw [Bool.or_eq_false_iff] at other
  simp [Other, isMissingTrailerError, Err.is, other.1, other.2]

theorem other_wrap {message : List Part} {causes : List Err} (all : ∀ e ∈ causes, Other e) :
    Other (.wrap message causes) := by
  simp only [Other, isMissingTrailerError, Err.is, GoError.is_wrap, Bool.or_eq_false_iff,
    List.any_eq_false] at all ⊢
  exact ⟨fun e mem => by simpa using (all e mem).1, fun e mem => by simpa using (all e mem).2⟩

/-- A check whose error belongs to another class. -/
theorem ends_about {α : Type} {bad : Bool} {s : Sentinel} {message : List Part} {f : Unit → Eval Err α}
    {post : α → Prop} (other : (Sentinel.same s .errBinaryTooSmall || Sentinel.same s .errInvalidMagic) = false)
    (next : bad = false → (f ()).Ends post Other) :
    (Eval.guard bad (.about s message) >>= f).Ends post Other :=
  .guarded (fun _ => other_about message other) next

/-! ## The dictionary

Each validator is characterised once: it returns exactly when the named facts
hold, it never traps, and its errors do not mean a missing trailer. -/

variable {idx : Index} {indexOffset lastEnd : Int64}

/-- Returns the end of the dictionary, or zero when there is none. -/
def validateDictionaryBounds (idx : Index) (indexOffset : Int64) : Eval Err Int64 := do
  Eval.guard (idx.dictionarySize.toInt < 0 || maxDictionarySize < idx.dictionarySize.toInt)
    (.about .errInvalidDictionary [.text "invalid dictionary size ", .int idx.dictionarySize.toInt,
      .text " (max allowed ", .int maxDictionarySize, .text " bytes)"])
  if idx.dictionarySize.toInt = 0 then return 0
  Eval.guard (idx.dictionaryOffset.toInt < 0)
    (.about .errInvalidDictionary
      [.text "invalid dictionary offset ", .int idx.dictionaryOffset.toInt])
  Eval.guard (idx.dictionarySHA256 = [] || !validateChecksum idx.dictionarySHA256)
    (.about .errInvalidChecksum [.text "dictionary missing or invalid sha256 checksum"])
  let past : Err := .about .errOutOfBounds
    [.text "dictionary payload extends past index offset ", .int indexOffset.toInt]
  Eval.guard (indexOffset.toInt < idx.dictionaryOffset.toInt) past
  let room ← sub64 indexOffset idx.dictionaryOffset
  Eval.guard (room.toInt < idx.dictionarySize.toInt) past
  add64 idx.dictionaryOffset idx.dictionarySize

/-- The dictionary checks passed and the data after the dictionary starts at
`lastEnd`. -/
inductive DictionaryOk (idx : Index) (indexOffset : Int64) : Int64 → Prop
  | none : idx.dictionarySize.toInt = 0 → DictionaryOk idx indexOffset 0
  | some (lastEnd : Int64) : 0 < idx.dictionarySize.toInt →
      idx.dictionarySize.toInt ≤ maxDictionarySize → 0 ≤ idx.dictionaryOffset.toInt →
      idx.dictionarySHA256 ≠ [] → validateChecksum idx.dictionarySHA256 = true →
      lastEnd.toInt = idx.dictionaryOffset.toInt + idx.dictionarySize.toInt →
      lastEnd.toInt ≤ indexOffset.toInt → DictionaryOk idx indexOffset lastEnd

theorem DictionaryOk.validates (ok : DictionaryOk idx indexOffset lastEnd) :
    validateDictionaryBounds idx indexOffset = .ok lastEnd := by
  cases ok with
  | none empty =>
    rw [validateDictionaryBounds, guard_pass (by simp [empty, maxDictionarySize]),
      ok_bind, if_pos empty]
    rfl
  | some lastEnd positive small place present valid next inside =>
    obtain ⟨room, roomEq, roomVal⟩ :=
      sub64_ordered (E := Err) place (a := indexOffset) (by omega)
    obtain ⟨stop, stopEq, stopVal⟩ :=
      add64_inside (E := Err) place (Int.le_of_lt positive) (next ▸ inside)
    have same : stop = lastEnd := Int64.toInt_inj.mp (stopVal.trans next.symm)
    rw [validateDictionaryBounds, guard_pass (by simp; omega), ok_bind,
      if_neg (by omega), guard_pass (by simpa using place), ok_bind,
      guard_pass (by simp [present, valid]), ok_bind]
    dsimp only
    rw [guard_pass (by simp; omega), ok_bind, roomEq, ok_bind,
      guard_pass (by simp; omega), ok_bind, stopEq, same]

theorem validateDictionaryBounds_ends (idx : Index) (indexOffset : Int64) :
    (validateDictionaryBounds idx indexOffset).Ends (DictionaryOk idx indexOffset) Other := by
  refine ends_about rfl fun size => ?_
  simp only [Bool.or_eq_false_iff, decide_eq_false_iff_not, Int.not_lt] at size
  by_cases none : idx.dictionarySize.toInt = 0
  · rw [if_pos none]
    exact .none none
  · rw [if_neg none]
    refine ends_about rfl fun place => ends_about rfl fun digest => ends_about rfl fun before => ?_
    simp only [Bool.or_eq_false_iff, decide_eq_false_iff_not, Bool.not_eq_false', Int.not_lt] at place digest before
    obtain ⟨room, roomEq, roomVal⟩ := sub64_ordered (E := Err) place before
    rw [roomEq, ok_bind]
    refine ends_about rfl fun inside => ?_
    simp only [decide_eq_false_iff_not, Int.not_lt] at inside
    obtain ⟨stop, stopEq, stopVal⟩ := add64_inside (E := Err) (b := idx.dictionarySize)
      (z := indexOffset) place (by omega) (by omega)
    rw [stopEq]
    exact .some stop (by omega) size.2 place digest.1 digest.2 stopVal (by omega)

/-! ## The variants -/

section

variable [CaseTable]

def Index.variantLevels (idx : Index) : List Bytes := idx.variants.map (·.level)

def Index.findVariant (idx : Index) (level : Bytes) : Option VariantEntry :=
  idx.variants.find? fun v => Microarch.normalize v.level = Microarch.normalize level

/-- One iteration of `validateVariantBounds`: the variant at index `i`, with the
normal forms seen before it and the end of the data before it. -/
def validateVariantAt (idx : Index) (indexOffset : Int64) (i : Nat) (seen : List Bytes)
    (lastEnd : Int64) (v : VariantEntry) : Eval Err Int64 := do
  Eval.guard (trimSpace v.level = [])
    (.about .errInvalidVariant [.text "variant at index ", .int i, .text " has empty level"])
  Eval.guard (rank idx.targetArch (Microarch.normalize v.level) ≤ 0)
    (.about .errInvalidVariant [.text "variant ", .quoted v.level,
      .text " is not a valid tier for target arch ", .quoted idx.targetArch])
  Eval.guard (Microarch.normalize v.level ∈ seen)
    (.about .errDuplicateVariant
      [.text "duplicate normalized variant level ", .quoted (Microarch.normalize v.level)])
  Eval.guard (v.offset.toInt < 0 || v.compressedSize.toInt ≤ 0 || v.uncompressedSize.toInt ≤ 0)
    (.about .errOutOfBounds [.text "invalid dimensions for variant ", .str v.level])
  Eval.guard (maxPayloadSize < v.uncompressedSize.toInt)
    (.about .errPayloadTooLarge [.text "variant ", .str v.level, .text " exceeds 1GB limit (",
      .int v.uncompressedSize.toInt, .text " bytes)"])
  let past : Err := .about .errOutOfBounds [.text "variant ", .str v.level,
    .text " payload extends past index offset ", .int indexOffset.toInt]
  Eval.guard (indexOffset.toInt < v.offset.toInt) past
  let room ← sub64 indexOffset v.offset
  Eval.guard (room.toInt < v.compressedSize.toInt) past
  Eval.guard ((0 < i || 0 < idx.dictionarySize.toInt) && v.offset.toInt < lastEnd.toInt)
    (.about .errOverlappingVariant [.text "variant ", .str v.level, .text " offset ",
      .int v.offset.toInt, .text " overlaps with previous data ending at ", .int lastEnd.toInt])
  let nextEnd ← add64 v.offset v.compressedSize
  Eval.guard (v.sha256 = [] || !validateChecksum v.sha256)
    (.about .errInvalidChecksum
      [.text "variant ", .str v.level, .text " missing or invalid sha256 checksum"])
  return nextEnd

/-- The loop of `validateVariantBounds` from index `i` on. -/
def validateVariantsFrom (idx : Index) (indexOffset : Int64) :
    Nat → List Bytes → Int64 → List VariantEntry → Eval Err Unit
  | _, _, _, [] => return ()
  | i, seen, lastEnd, v :: rest => do
      let nextEnd ← validateVariantAt idx indexOffset i seen lastEnd v
      validateVariantsFrom idx indexOffset (i + 1) (Microarch.normalize v.level :: seen) nextEnd rest

def validateVariantBounds (idx : Index) (indexOffset lastEnd : Int64) : Eval Err Unit :=
  validateVariantsFrom idx indexOffset 0 [] lastEnd idx.variants

def validateBounds (idx : Index) (indexOffset : Int64) : Eval Err Unit := do
  Eval.guard (idx.version = formatVersion1)
    (.about .errUnsupportedVersion [.text "Format v1 was removed in v0.4.0; use Format v2"])
  Eval.guard (idx.version ≠ formatVersion2)
    (.about .errUnsupportedVersion [.text "got version ", .int idx.version, .text ", expected ",
      .int formatVersion2])
  Eval.guard (indexOffset.toInt < 0)
    (.about .errOutOfBounds [.text "invalid negative index offset ", .int indexOffset.toInt])
  Eval.guard (idx.variants = []) (.sentinel .errNoVariantsSpecified)
  let targetArch := toLower (trimSpace idx.targetArch)
  Eval.guard (targetArch ≠ archAMD64 && targetArch ≠ archARM64)
    (.about .errInvalidVariant
      [.text "unrecognized target architecture ", .quoted idx.targetArch])
  let lastEnd ← validateDictionaryBounds idx indexOffset
  validateVariantBounds idx indexOffset lastEnd

/-- The checks of one iteration passed and the data before the next variant ends
at `nextEnd`. -/
structure VariantOk (idx : Index) (indexOffset : Int64) (i : Nat) (seen : List Bytes)
    (lastEnd : Int64) (v : VariantEntry) (nextEnd : Int64) : Prop where
  named : trimSpace v.level ≠ []
  tier : 0 < rank idx.targetArch (Microarch.normalize v.level)
  unseen : Microarch.normalize v.level ∉ seen
  offset : 0 ≤ v.offset.toInt
  compressed : 0 < v.compressedSize.toInt
  uncompressed : 0 < v.uncompressedSize.toInt
  payload : v.uncompressedSize.toInt ≤ maxPayloadSize
  after : 0 < i ∨ 0 < idx.dictionarySize.toInt → lastEnd.toInt ≤ v.offset.toInt
  digest : v.sha256 ≠ [] ∧ validateChecksum v.sha256 = true
  next : nextEnd.toInt = v.offset.toInt + v.compressedSize.toInt
  inside : nextEnd.toInt ≤ indexOffset.toInt

theorem VariantOk.validates {nextEnd : Int64} {i : Nat} {seen : List Bytes} {v : VariantEntry}
    (ok : VariantOk idx indexOffset i seen lastEnd v nextEnd) :
    validateVariantAt idx indexOffset i seen lastEnd v = .ok nextEnd := by
  have compressed := ok.compressed
  have next := ok.next
  have inside := ok.inside
  have after := ok.after
  obtain ⟨room, roomEq, roomVal⟩ :=
    sub64_ordered (E := Err) ok.offset (a := indexOffset) (by omega)
  obtain ⟨stop, stopEq, stopVal⟩ :=
    add64_inside (E := Err) ok.offset (by omega) (next ▸ inside)
  have same : stop = nextEnd := Int64.toInt_inj.mp (stopVal.trans next.symm)
  rw [validateVariantAt, guard_pass (by simpa using ok.named), ok_bind,
    guard_pass (by simpa using ok.tier), ok_bind,
    guard_pass (by simpa using ok.unseen), ok_bind,
    guard_pass (by simpa using ⟨⟨ok.offset, compressed⟩, ok.uncompressed⟩), ok_bind,
    guard_pass (by simpa using ok.payload), ok_bind]
  dsimp only
  rw [guard_pass (by simp; omega), ok_bind, roomEq, ok_bind,
    guard_pass (by simp; omega), ok_bind,
    guard_pass (by simp; omega), ok_bind, stopEq, ok_bind,
    guard_pass (by simpa using ok.digest), ok_bind, same]
  rfl

theorem validateVariantAt_ends {i : Nat} {seen : List Bytes} {v : VariantEntry} :
    (validateVariantAt idx indexOffset i seen lastEnd v).Ends (VariantOk idx indexOffset i seen lastEnd v) Other := by
  refine ends_about rfl fun named => ends_about rfl fun tier => ends_about rfl fun unseen =>
    ends_about rfl fun dims => ends_about rfl fun payload => ends_about rfl fun before => ?_
  simp only [Bool.or_eq_false_iff, decide_eq_false_iff_not, Int.not_lt,
    Int.not_le] at named tier unseen dims payload before
  obtain ⟨room, roomEq, roomVal⟩ := sub64_ordered (E := Err) dims.1.1 before
  rw [roomEq, ok_bind]
  refine ends_about rfl fun inside => ends_about rfl fun after => ?_
  simp only [Bool.or_eq_false_iff, Bool.and_eq_false_iff, decide_eq_false_iff_not, Int.not_lt] at inside after
  obtain ⟨stop, stopEq, stopVal⟩ := add64_inside (E := Err) (z := indexOffset) dims.1.1
    (Int.le_of_lt dims.1.2) (by omega)
  rw [stopEq, ok_bind]
  refine ends_about rfl fun digest => ⟨named, tier, unseen, dims.1.1, dims.1.2, dims.2, payload, ?_,
    by simpa using digest, stopVal, by omega⟩
  intro later
  rcases after with ⟨first, noDict⟩ | ordered
  · omega
  · exact ordered

theorem validateVariantsFrom_ends (idx : Index) (indexOffset : Int64) (vs : List VariantEntry) :
    ∀ (i : Nat) (seen : List Bytes) (lastEnd : Int64),
      (validateVariantsFrom idx indexOffset i seen lastEnd vs).Ends (fun _ => True) Other := by
  induction vs with
  | nil => exact fun _ _ _ => trivial
  | cons v rest ih =>
    intro i seen lastEnd
    exact validateVariantAt_ends.bind fun _ _ => ih _ _ _

/-- Every variant of an accepted list passed the checks of its iteration. -/
theorem validateVariantsFrom_mem {vs : List VariantEntry} :
    ∀ {i : Nat} {seen : List Bytes} {lastEnd : Int64},
      validateVariantsFrom idx indexOffset i seen lastEnd vs = .ok () →
      ∀ v ∈ vs, ∃ j seen' last next, VariantOk idx indexOffset j seen' last v next := by
  induction vs with
  | nil => simp
  | cons v rest ih =>
    intro i seen lastEnd h
    obtain ⟨nextEnd, head, tail⟩ := bind_ok h
    exact List.forall_mem_cons.mpr ⟨⟨_, _, _, _, validateVariantAt_ends.returns head⟩, ih tail⟩

/-- The facts of `validateBounds`, with the end of the dictionary. -/
structure BoundsOk (idx : Index) (indexOffset : Int64) (lastEnd : Int64) : Prop where
  version : idx.version = formatVersion2
  nonneg : 0 ≤ indexOffset.toInt
  nonempty : idx.variants ≠ []
  arch : toLower (trimSpace idx.targetArch) = archAMD64 ∨
    toLower (trimSpace idx.targetArch) = archARM64
  dictionary : DictionaryOk idx indexOffset lastEnd
  variants : validateVariantsFrom idx indexOffset 0 [] lastEnd idx.variants = .ok ()

theorem validateBounds_ok (h : validateBounds idx indexOffset = .ok ()) :
    ∃ lastEnd, BoundsOk idx indexOffset lastEnd := by
  obtain ⟨_, _, h⟩ := bind_ok h
  obtain ⟨_, version, h⟩ := bind_ok h
  obtain ⟨_, nonneg, h⟩ := bind_ok h
  obtain ⟨_, nonempty, h⟩ := bind_ok h
  obtain ⟨_, arch, h⟩ := bind_ok h
  obtain ⟨lastEnd, dictionary, h⟩ := bind_ok h
  simp only [Eval.guard_eq_ok, Bool.and_eq_false_iff, decide_eq_false_iff_not, Int.not_lt,
    Decidable.not_not] at version nonneg nonempty arch
  exact ⟨lastEnd, version, nonneg, nonempty, arch, (validateDictionaryBounds_ends _ _).returns dictionary, h⟩

theorem BoundsOk.validates (ok : BoundsOk idx indexOffset lastEnd) :
    validateBounds idx indexOffset = .ok () := by
  have arch : (decide (toLower (trimSpace idx.targetArch) ≠ archAMD64) &&
      decide (toLower (trimSpace idx.targetArch) ≠ archARM64)) = false := by
    rcases ok.arch with amd | arm
    · simp [amd]
    · simp [arm]
  rw [validateBounds, ok.version, guard_pass (by decide), ok_bind,
    guard_pass (by decide), ok_bind,
    guard_pass (by simpa using ok.nonneg), ok_bind,
    guard_pass (by simpa using ok.nonempty), ok_bind]
  dsimp only
  rw [arch, Eval.guard_false, ok_bind, ok.dictionary.validates, ok_bind]
  exact ok.variants

theorem validateBounds_ends (idx : Index) (indexOffset : Int64) :
    (validateBounds idx indexOffset).Ends (fun _ => True) Other :=
  ends_about rfl fun _ => ends_about rfl fun _ => ends_about rfl fun _ =>
    .guarded (fun _ => by simp [Other, isMissingTrailerError, Err.is, Sentinel.same]) fun _ =>
    ends_about rfl fun _ => (validateDictionaryBounds_ends _ _).bind fun _ _ => validateVariantsFrom_ends _ _ _ _ _ _

end

end Microfat.Format
