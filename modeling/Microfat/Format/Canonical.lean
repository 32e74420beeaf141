/-
# Microfat.Format.Canonical — what the index decoder accepts

`unmarshalBinaryIndex` reads bytes nobody vouches for.  Whatever it accepts starts
with the encoding of an index as somebody may spell it: digests in either case, an
empty codec name where the default is meant (`spelledIndex`).  The decoder returns
that index in canonical spelling, and no strict prefix of what it consumed decodes:
each is reported as truncated.

* `unmarshalBinaryIndex_inv`: the spelled index, where it stands, and that every cut
  is noticed;
* `unmarshalBinaryIndex_canonical`: the consumed length is unique, and re-encoding
  changes the spelling only.

One inversion lemma per field; the cuts compose by `Theory.CutSafe`.
-/
import Microfat.Format.Binary

namespace Microfat.Format

open Theory Microarch
open Eval (bind_ok)

set_option autoImplicit false

theorem isHexChar_of_lower {c : UInt8} (hex : isHexChar (lowerByte c) = true) : isHexChar c = true := by
  unfold lowerByte at hex
  split at hex
  · rename_i upper
    simp only [isHexChar, between_iff, Bool.or_eq_true, UInt8.toNat_add] at hex upper ⊢
    have : (32 : UInt8).toNat = 32 := rfl
    omega
  · exact hex

/-! ## Loading a field of unknown bytes -/

variable {data s : Bytes} {off stop : Nat} {cut : Err}

def Truncation (err : Err) : Prop := Err.is err .errTruncatedIndex = true

theorem truncated_cut (message : List Part) : Truncation (truncated message) := by
  simp [Truncation, truncated, Err.is, Sentinel.same]

/-- The loader found `piece` at the offset, stopped behind it, and notices when it is cut. -/
structure Loads {α : Type} (load : Bytes → Eval Err (α × Nat)) (data : Bytes) (off stop : Nat) (a : α)
    (piece : Bytes) : Prop where
  stops : stop = off + piece.length
  reads : Reads data off piece
  safe : CutSafe Truncation load data 0 stop (a, stop)

/-- The loader first, then the rest, wherever the data is cut. -/
theorem Loads.bind {α β : Type} {load : Bytes → Eval Err (α × Nat)} {f : Bytes → α × Nat → Eval Err β} {a : α} {b : β}
    {piece : Bytes} {start last : Nat} (loads : Loads load data off stop a piece)
    (rest : CutSafe Truncation (fun d => f d (a, stop)) data stop last b) (le : stop ≤ last) :
    CutSafe Truncation (fun d => load d >>= f d) data start last b :=
  (loads.safe.mono (Nat.zero_le start)).bind rest le

/-- A bounded piece of the data: where it stands, and that a cut is noticed. -/
theorem loadSlice_inv {α : Type} {width : Nat} {piece : Bytes} (decode : Bytes → α) (isCut : Truncation cut)
    (sum : (addInt off width : Eval Err Nat) = .ok stop) (sliced : (slice data off stop : Eval Err Bytes) = .ok piece) :
    piece.length = width ∧ stop = off + width ∧ Reads data off piece ∧
      CutSafe Truncation (fun d => do
        let stop ← (addInt off width : Eval Err Nat)
        Eval.guard (d.length < stop) cut
        let piece ← slice d off stop
        return (decode piece, stop)) data 0 stop (decode piece, stop) := by
  obtain ⟨reads, ends⟩ := Reads.of_slice sliced
  have total := addInt_eq_ok sum
  refine ⟨by omega, total, reads, ?_⟩
  exact (CutSafe.const sum 0).bind ((CutSafe.guard_lt (fun _ => isCut) _ _).bind
    ((CutSafe.slice sliced).bind (CutSafe.const rfl _) le_rfl) le_rfl) (Nat.zero_le _)

theorem loadBytes_inv {width : Nat} (isCut : Truncation cut)
    (h : loadBytes data off width cut = .ok (s, stop)) :
    s.length = width ∧ Loads (loadBytes · off width cut) data off stop s s := by
  obtain ⟨_, sum, h⟩ := bind_ok h
  obtain ⟨_, -, h⟩ := bind_ok h
  obtain ⟨piece, sliced, h⟩ := bind_ok h
  cases h
  obtain ⟨width, total, reads, safe⟩ := loadSlice_inv id isCut sum sliced
  exact ⟨width, width ▸ total, reads, safe⟩

theorem loadString8_inv {noLength : Err} (noLengthCut : Truncation noLength) (isCut : Truncation cut)
    (h : loadString8 data off noLength cut = .ok (s, stop)) :
    s.length ≤ 255 ∧ Loads (loadString8 · off noLength cut) data off stop s (encodeString8 s) := by
  obtain ⟨_, -, h⟩ := bind_ok h
  obtain ⟨c, byte, h⟩ := bind_ok h
  obtain ⟨next, sum, h⟩ := bind_ok h
  obtain rfl := addInt_eq_ok sum
  obtain ⟨width, body⟩ := loadBytes_inv isCut h
  have lengthByte : encodeString8 s = [c] ++ s := by
    rw [encodeString8, width, UInt8.ofNat_toNat]
    rfl
  have fits := c.toNat_lt
  refine ⟨by omega, ?_, ?_, ?_⟩
  · rw [body.stops, encodeString8_length]
    omega
  · rw [lengthByte]
    exact (Reads.of_byteAt byte).append rfl body.reads
  · have ends := body.stops
    exact (CutSafe.guard_le noLengthCut 0 off).bind ((CutSafe.byteAt byte).bind
      ((CutSafe.const sum _).bind (body.safe.mono (Nat.zero_le _)) (by omega)) (by omega)) (by omega)

theorem loadUint16_inv {v : Nat} (isCut : Truncation cut) (h : loadUint16 data off cut = .ok (v, stop)) :
    v ≤ 65535 ∧ Loads (loadUint16 · off cut) data off stop v (putUint16 v) := by
  obtain ⟨_, sum, h⟩ := bind_ok h
  obtain ⟨_, -, h⟩ := bind_ok h
  obtain ⟨piece, sliced, h⟩ := bind_ok h
  cases h
  obtain ⟨width, total, reads, safe⟩ := loadSlice_inv leNat isCut sum sliced
  have small := leNat_lt piece
  rw [width] at small
  rw [← putUint16_leNat width] at reads
  exact ⟨by omega, by rwa [putUint16_length], reads, safe⟩

/-- A 64-bit field is read where its presence is known. -/
theorem loadInt64_inv {v : Int64} (h : loadInt64 data off = .ok (v, stop)) :
    stop = off + 8 ∧ Reads data off (putInt64 v) ∧
      CutSafe Truncation (loadInt64 · off) data stop stop (v, stop) := by
  obtain ⟨_, sum, h⟩ := bind_ok h
  obtain ⟨piece, sliced, h⟩ := bind_ok h
  cases h
  obtain ⟨reads, ends⟩ := Reads.of_slice sliced
  have total := addInt_eq_ok sum
  refine ⟨total, ?_, ?_⟩
  · rwa [putInt64_int64 (by omega)]
  · exact (CutSafe.const sum _).bind ((CutSafe.slice sliced).bind (CutSafe.const rfl _) le_rfl) le_rfl

/-! ## Spelled indexes -/

variable {v : VariantEntry} {idx : Index}

/-- A variant with its codec name as it was written, which may be empty. -/
def spelledVariant (v : VariantEntry) : Bytes :=
  encodeString8 v.level ++ (putInt64 v.offset ++ (putInt64 v.compressedSize ++
    (putInt64 v.uncompressedSize ++ (encodeString8 v.sha256 ++ encodeString8 v.compression))))

def spelledVariants (vs : List VariantEntry) : Bytes := vs.flatMap spelledVariant

def spelledIndex (idx : Index) : Bytes :=
  encodeFixed idx ++ (encodeStrings idx ++ spelledVariants idx.variants)

theorem encodeVariant_spelled (named : v.compression ≠ []) :
    encodeVariant v = spelledVariant v := by
  rw [encodeVariant, spelledVariant, compressionName, if_neg named]

theorem encodeIndex_spelled (named : ∀ v ∈ idx.variants, v.compression ≠ []) :
    encodeIndex idx = spelledIndex idx := by
  rw [encodeIndex, spelledIndex, encodeVariants, spelledVariants]
  congr 2
  exact List.flatMap_congr fun v mem => encodeVariant_spelled (named v mem)

section

variable [CaseTable]

theorem decodeBinaryVariant_inv {i : Nat} (h : decodeBinaryVariant data off i = .ok (v, stop)) :
    ∃ raw, v = canonicalVariant raw ∧ VariantFits raw ∧
      Loads (decodeBinaryVariant · off i) data off stop v (spelledVariant raw) := by
  obtain ⟨⟨level, off₁⟩, loadLevel, h⟩ := bind_ok h
  obtain ⟨off₂, sum, h⟩ := bind_ok h
  obtain ⟨_, present, h⟩ := bind_ok h
  obtain ⟨⟨vOffset, off₃⟩, loadOffset, h⟩ := bind_ok h
  obtain ⟨⟨compSize, off₄⟩, loadComp, h⟩ := bind_ok h
  obtain ⟨⟨uncompSize, off₅⟩, loadUncomp, h⟩ := bind_ok h
  obtain ⟨⟨sha, off₆⟩, loadSHA, h⟩ := bind_ok h
  obtain ⟨_, digest, h⟩ := bind_ok h
  obtain ⟨⟨comp, off₇⟩, loadName, h⟩ := bind_ok h
  cases h
  obtain ⟨levelFits, levelLoads⟩ := loadString8_inv (truncated_cut _) (truncated_cut _) loadLevel
  obtain ⟨next₃, readsOffset, safeOffset⟩ := loadInt64_inv loadOffset
  obtain ⟨next₄, readsComp, safeComp⟩ := loadInt64_inv loadComp
  obtain ⟨next₅, readsUncomp, safeUncomp⟩ := loadInt64_inv loadUncomp
  obtain ⟨shaFits, shaLoads⟩ := loadString8_inv (truncated_cut _) (truncated_cut _) loadSHA
  obtain ⟨nameFits, nameLoads⟩ := loadString8_inv (truncated_cut _) (truncated_cut _) loadName
  have numeric := addInt_eq_ok sum
  have ends₁ := levelLoads.stops
  have ends₆ := shaLoads.stops
  have ends₇ := nameLoads.stops
  dsimp only at *
  have valid : sha ≠ [] ∧ validateChecksum sha = true := by simpa using digest
  refine ⟨⟨level, vOffset, compSize, uncompSize, sha, comp⟩, ?_, ⟨valid, levelFits, shaFits, ?_⟩, ?_, ?_, ?_⟩
  · rw [canonicalVariant, compressionName]
  · rw [compressionName]
    split
    · decide
    · exact nameFits
  · simp only [spelledVariant, List.length_append, putInt64_length]
    omega
  · exact levelLoads.reads.append ends₁ (readsOffset.append (by simpa using next₃)
      (readsComp.append (by simpa using next₄) (readsUncomp.append (by simpa using next₅)
        (shaLoads.reads.append ends₆ nameLoads.reads))))
  · -- the presence of the three numbers is checked once, before the first
    have offsetThere := safeOffset.settled (show off₃ ≤ off₂ by omega) (by omega)
    have compThere := safeComp.settled (show off₄ ≤ off₂ by omega) (by omega)
    have uncompThere := safeUncomp.settled (show off₅ ≤ off₂ by omega) (by omega)
    exact levelLoads.bind ((CutSafe.const sum off₁).bind ((CutSafe.guard_lt (fun _ => truncated_cut _) off₁ off₂).bind
      (offsetThere.bind (compThere.bind (uncompThere.bind (shaLoads.bind ((CutSafe.const digest off₆).bind
        (nameLoads.bind (CutSafe.const rfl _) le_rfl) (by omega)) (by omega)) (by omega)) (by omega)) (by omega))
      (by omega)) (by omega)) (by omega)

theorem decodeVariants_inv (count : Nat) : ∀ {i off : Nat} {vs : List VariantEntry},
    off ≤ data.length → decodeVariants data count i off = .ok vs →
    ∃ raws, vs = raws.map canonicalVariant ∧ raws.length = count ∧ (∀ raw ∈ raws, VariantFits raw) ∧
      Reads data off (spelledVariants raws) ∧
      CutSafe Truncation (decodeVariants · count i off) data off (off + (spelledVariants raws).length) vs := by
  induction count with
  | zero =>
    intro i off vs inside h
    cases h
    exact ⟨[], rfl, rfl, by simp, ⟨inside, by simp [spelledVariants]⟩, CutSafe.const rfl off⟩
  | succ count ih =>
    intro i off vs inside h
    obtain ⟨⟨v, next⟩, decoded, h⟩ := bind_ok h
    obtain ⟨rest, others, h⟩ := bind_ok h
    cases h
    obtain ⟨raw, rfl, fits, loads⟩ := decodeBinaryVariant_inv decoded
    have ends := loads.stops
    have within := loads.reads.length_le
    obtain ⟨raws, rfl, length, allFit, reads, safe⟩ := ih (by omega) others
    refine ⟨raw :: raws, rfl, by rw [List.length_cons, length], List.forall_mem_cons.mpr ⟨fits, allFit⟩, ?_, ?_⟩
    · rw [spelledVariants, List.flatMap_cons]
      exact loads.reads.append ends reads
    · have total : off + (spelledVariants (raw :: raws)).length = next + (spelledVariants raws).length := by
        rw [ends, spelledVariants, List.flatMap_cons, List.length_append, spelledVariants, Nat.add_assoc]
      rw [total]
      exact loads.bind (safe.bind (CutSafe.const rfl _) le_rfl) (by omega)

end

theorem loadFixed_inv {header : Header} (h : loadFixed data = .ok header) :
    header.version = formatVersion2 ∧
    (∀ idx : Index, idx.createdUnix = header.createdUnix → idx.dictionaryOffset = header.dictOffset →
      idx.dictionarySize = header.dictSize → idx.dictionaryID = header.dictID → Reads data 0 (encodeFixed idx)) ∧
    CutSafe Truncation loadFixed data 0 34 header := by
  obtain ⟨_, -, h⟩ := bind_ok h
  obtain ⟨magic, loadMagic, h⟩ := bind_ok h
  obtain ⟨_, isMagic, h⟩ := bind_ok h
  obtain ⟨version, loadVersion, h⟩ := bind_ok h
  obtain ⟨_, isVersion, h⟩ := bind_ok h
  obtain ⟨created, loadCreated, h⟩ := bind_ok h
  obtain ⟨dictOffset, loadOffset, h⟩ := bind_ok h
  obtain ⟨dictSize, loadSize, h⟩ := bind_ok h
  obtain ⟨dictID, loadID, h⟩ := bind_ok h
  cases h
  have readMagic := Reads.of_slice loadMagic
  have readVersion := Reads.of_slice loadVersion
  have readCreated := Reads.of_slice loadCreated
  have readOffset := Reads.of_slice loadOffset
  have readSize := Reads.of_slice loadSize
  have readID := Reads.of_slice loadID
  have sameMagic : magic = indexMagicV2 := by simpa using isMagic
  have sameVersion : ((leNat version : Nat) : Int) = formatVersion2 := by simpa using isVersion
  refine ⟨sameVersion, ?_, ?_⟩
  · rintro idx sameCreated sameOffset sameSize sameID
    have versionBytes : putUint16 formatVersion2.toNat = version := by
      rw [← sameVersion, Int.toNat_natCast, putUint16_leNat (by omega)]
    rw [encodeFixed, sameCreated, sameOffset, sameSize, sameID, ← sameMagic, versionBytes,
      putInt64_int64 (by omega), putInt64_int64 (by omega), putInt64_int64 (by omega), putUint32_uint32 (by omega)]
    exact readMagic.1.append readMagic.2.symm (readVersion.1.append readVersion.2.symm
      (readCreated.1.append readCreated.2.symm (readOffset.1.append readOffset.2.symm
        (readSize.1.append readSize.2.symm readID.1))))
  · have there : ∀ {piece : Bytes} {off stop : Nat}, (slice data off stop : Eval Err Bytes) = .ok piece →
        stop ≤ 34 → CutSafe Truncation (fun d => slice d off stop) data 34 34 piece :=
      fun found inside => (CutSafe.slice found).settled inside inside
    have long : CutSafe Truncation (fun d => Eval.guard (d.length < 34)
        (truncated [.text "binary index too short (", .int d.length, .text " bytes)"])) data 0 34 () :=
      CutSafe.guard_lt (fun _ => truncated_cut _) 0 34
    exact long.bind ((there loadMagic (by omega)).bind
      ((CutSafe.const isMagic 34).bind ((there loadVersion (by omega)).bind ((CutSafe.const isVersion 34).bind
        ((there loadCreated (by omega)).bind ((there loadOffset (by omega)).bind ((there loadSize (by omega)).bind
          ((there loadID (by omega)).bind (CutSafe.const rfl 34) le_rfl) le_rfl) le_rfl) le_rfl) le_rfl) le_rfl)
        le_rfl) le_rfl) le_rfl

section

variable [CaseTable]

/-- **Whatever is accepted starts with a spelled index**, and every cut of it is noticed. -/
theorem unmarshalBinaryIndex_inv (h : unmarshalBinaryIndex data = .ok idx) :
    ∃ raw, idx = canonicalIndex raw ∧ raw.version = formatVersion2 ∧ IndexFits raw ∧
      Reads data 0 (spelledIndex raw) ∧
      CutSafe Truncation unmarshalBinaryIndex data 0 (spelledIndex raw).length idx := by
  obtain ⟨header, loadHeader, h⟩ := bind_ok h
  obtain ⟨⟨dictSHA, off₁⟩, loadDict, h⟩ := bind_ok h
  obtain ⟨_, digest, h⟩ := bind_ok h
  obtain ⟨⟨targetOS, off₂⟩, loadOS, h⟩ := bind_ok h
  obtain ⟨⟨targetArch, off₃⟩, loadArch, h⟩ := bind_ok h
  obtain ⟨⟨appLen, off₄⟩, loadAppLen, h⟩ := bind_ok h
  obtain ⟨⟨appName, off₅⟩, loadApp, h⟩ := bind_ok h
  obtain ⟨⟨variantCount, off₆⟩, loadCount, h⟩ := bind_ok h
  obtain ⟨variants, decoded, h⟩ := bind_ok h
  cases h
  obtain ⟨version, readsFixed, fixed⟩ := loadFixed_inv loadHeader
  obtain ⟨dictFits, dict⟩ := loadString8_inv (truncated_cut _) (truncated_cut _) loadDict
  obtain ⟨osFits, os⟩ := loadString8_inv (truncated_cut _) (truncated_cut _) loadOS
  obtain ⟨archFits, arch⟩ := loadString8_inv (truncated_cut _) (truncated_cut _) loadArch
  obtain ⟨appFits, appLength⟩ := loadUint16_inv (truncated_cut _) loadAppLen
  obtain ⟨width, app⟩ := loadBytes_inv (truncated_cut _) loadApp
  obtain ⟨countFits, count⟩ := loadUint16_inv (truncated_cut _) loadCount
  have inside := count.reads.length_le
  have ends₁ := dict.stops
  have ends₂ := os.stops
  have ends₃ := arch.stops
  have ends₄ := appLength.stops
  have ends₅ := app.stops
  have ends₆ := count.stops
  dsimp only at *
  obtain ⟨raws, rfl, length, allFit, readsVariants, safe⟩ := decodeVariants_inv _ (by omega) decoded
  have checked : 0 < header.dictSize.toInt → dictSHA ≠ [] ∧ validateChecksum dictSHA = true := by
    simpa using digest
  subst width length
  let raw : Index := ⟨header.version, appName, targetOS, targetArch, header.createdUnix, header.dictOffset,
    header.dictSize, dictSHA, header.dictID, raws⟩
  have strings : Reads data 34 (encodeStrings raw) := dict.reads.append ends₁ (os.reads.append ends₂
    (arch.reads.append ends₃ (appLength.reads.append ends₄ (app.reads.append ends₅ count.reads))))
  have stringsEnd : off₆ = 34 + (encodeStrings raw).length := by
    simp only [raw, encodeStrings, List.length_append]
    omega
  have total : (spelledIndex raw).length = off₆ + (spelledVariants raws).length := by
    rw [spelledIndex, List.length_append, List.length_append, encodeFixed_length, stringsEnd, Nat.add_assoc]
  refine ⟨raw, ?_, version, ?_, ?_, ?_⟩
  · rw [canonicalIndex, version]
  · exact ⟨osFits, archFits, appFits, countFits, dictFits, checked, allFit⟩
  · exact (readsFixed raw rfl rfl rfl rfl).append (by rw [encodeFixed_length])
      (strings.append stringsEnd readsVariants)
  · rw [total]
    exact fixed.bind (dict.bind ((CutSafe.const digest off₁).bind (os.bind (arch.bind
      (appLength.bind (app.bind (count.bind (safe.bind (CutSafe.const rfl _) le_rfl) (by omega))
        (by omega)) (by omega)) (by omega)) (by omega)) (by omega)) (by omega)) (by omega)

/-! ## Spelling -/

/-- Hexadecimal text that differs in the case of its letters at most. -/
def SameHex (a b : Bytes) : Prop :=
  List.Forall₂ (fun x y => isHexChar x = true ∧ (y = x ∨ between x 65 70 = true ∧ y = x + 32)) a b

/-- The second variant is the first one with its digest in other letters and the
default for an empty codec name. -/
structure RespelledVariant (a b : VariantEntry) : Prop where
  fields : b = { a with sha256 := b.sha256, compression := b.compression }
  sha256 : SameHex a.sha256 b.sha256
  compression : b.compression = a.compression ∨ a.compression = [] ∧ b.compression = defaultCompressionAlgorithm

structure RespelledIndex (a b : Index) : Prop where
  fields : b = { a with dictionarySHA256 := b.dictionarySHA256, variants := b.variants }
  dictionarySHA256 : SameHex a.dictionarySHA256 b.dictionarySHA256
  variants : List.Forall₂ RespelledVariant a.variants b.variants

/-- Two byte strings that encode an index in different spelling. -/
def Respelled (a b : Bytes) : Prop :=
  ∃ raw idx, a = spelledIndex raw ∧ b = spelledIndex idx ∧ RespelledIndex raw idx

theorem sameHex_toLower (valid : validateChecksum s = true) : SameHex s (toLower s) := by
  rw [toLower_ascii (validateChecksum_ascii valid), SameHex, List.forall₂_map_right_iff, List.forall₂_same]
  rcases validateChecksum_iff.mp valid with rfl | ⟨-, hex⟩
  · simp
  intro c mem
  refine ⟨hex c mem, ?_⟩
  have digit := hex c mem
  rw [lowerByte]
  split
  · rename_i upper
    refine .inr ⟨?_, rfl⟩
    simp only [isHexChar, between_iff, Bool.or_eq_true] at digit upper ⊢
    omega
  · exact .inl rfl

theorem respelledVariant_canonical (fits : VariantFits v) :
    RespelledVariant v (canonicalVariant v) := by
  refine ⟨rfl, sameHex_toLower fits.digest.2, ?_⟩
  rw [canonicalVariant, compressionName]
  split
  · rename_i empty
    exact .inr ⟨empty, rfl⟩
  · exact .inl rfl

theorem respelledIndex_canonical (current : idx.version = formatVersion2)
    (valid : validateChecksum idx.dictionarySHA256 = true) (fits : ∀ v ∈ idx.variants, VariantFits v) :
    RespelledIndex idx (canonicalIndex idx) := by
  refine ⟨?_, sameHex_toLower valid, ?_⟩
  · rw [canonicalIndex, ← current]
  · rw [canonicalIndex, List.forall₂_map_right_iff, List.forall₂_same]
    exact fun v mem => respelledVariant_canonical (fits v mem)

theorem variantFits_canonical (fits : VariantFits v) : VariantFits (canonicalVariant v) := by
  have same : compressionName (canonicalVariant v) = compressionName v := if_neg (compressionName_ne_nil v)
  refine ⟨toLower_digest fits.digest.1 fits.digest.2, fits.level, ?_, ?_⟩
  · rw [canonicalVariant, toLower_length_ascii (validateChecksum_ascii fits.digest.2)]
    exact fits.sha256
  · rw [same]
    exact fits.compression

theorem indexFits_canonical (fits : IndexFits idx)
    (valid : validateChecksum idx.dictionarySHA256 = true) : IndexFits (canonicalIndex idx) := by
  refine ⟨fits.targetOS, fits.targetArch, fits.appName, ?_, ?_, fun positive => ?_, ?_⟩
  · rw [canonicalIndex, List.length_map]
    exact fits.count
  · rw [canonicalIndex, toLower_length_ascii (validateChecksum_ascii valid)]
    exact fits.dictionarySHA256
  · exact toLower_digest (fits.dictionary positive).1 valid
  · intro v mem
    obtain ⟨w, inside, rfl⟩ := List.mem_map.mp mem
    exact variantFits_canonical (fits.variants w inside)

/-! ## Digests that are valid in lower case -/

/-- No rune beyond ASCII has a hexadecimal digit as its lower case: of those with an
ASCII lower case, U+0130 has `i` and U+212A has `k`. -/
def HexCase : Prop := ∀ r, 0x80 ≤ r → ∀ c, isHexChar c = true → CaseTable.lowerRune r ≠ c.toNat

theorem validateChecksum_of_toLower (table : HexCase) (valid : validateChecksum (toLower s) = true) :
    validateChecksum s = true := by
  have hex : ∀ c ∈ toLower s, isHexChar c = true := by
    rcases validateChecksum_iff.mp valid with empty | ⟨-, hex⟩
    · simp [empty]
    · exact hex
  by_cases ascii : isAscii s = true
  · rw [toLower_ascii ascii] at valid hex
    rcases validateChecksum_iff.mp valid with empty | ⟨width, -⟩
    · rw [List.map_eq_nil_iff.mp empty]
      rfl
    · refine validateChecksum_iff.mpr (.inr ⟨by simpa using width, fun c mem => ?_⟩)
      exact isHexChar_of_lower (hex _ (List.mem_map_of_mem mem))
  · -- a rune beyond ASCII would leave a byte that is no digit
    obtain ⟨r, mem, high⟩ := exists_high_rune ascii
    have inside : ∀ c ∈ encodeRune (lowerRune r), isHexChar c = true := fun c found => by
      refine hex c ?_
      rw [toLower_runes]
      exact List.mem_flatMap.mpr ⟨_, List.mem_map_of_mem mem, found⟩
    have lowered : lowerRune r = CaseTable.lowerRune r := if_neg (by omega)
    rw [lowered] at inside
    by_cases small : CaseTable.lowerRune r < 0x80
    · rw [encodeRune, if_pos small] at inside
      have same : (UInt8.ofNat (CaseTable.lowerRune r)).toNat = CaseTable.lowerRune r := by
        rw [UInt8.toNat_ofNat']
        omega
      exact absurd same.symm (table r high _ (inside _ (List.mem_singleton_self _)))
    · obtain ⟨c, found, large⟩ := exists_high_byte (not_lt.mp small)
      have low := (isHexChar_lower (inside c found)).1
      omega

/-- **Decoding is canonical and notices every cut.** -/
theorem unmarshalBinaryIndex_canonical (table : HexCase) {data : Bytes} {idx : Index}
    (accepted : unmarshalBinaryIndex data = .ok idx)
    (digest : idx.dictionarySHA256 = [] ∨ validateChecksum idx.dictionarySHA256 = true) :
    ∃! k, k ≤ data.length ∧
      (∃ enc, marshalBinaryIndex idx = .ok enc ∧ Respelled (data.take k) enc) ∧
      unmarshalBinaryIndex (data.take k) = .ok idx ∧
      ∀ j < k, ∃ err, unmarshalBinaryIndex (data.take j) = Eval.fail err ∧ Err.is err .errTruncatedIndex = true := by
  obtain ⟨raw, rfl, current, fits, reads, safe⟩ := unmarshalBinaryIndex_inv accepted
  have inside := reads.length_le
  rw [Nat.zero_add] at inside
  have lower : validateChecksum (toLower raw.dictionarySHA256) = true := by
    rcases digest with empty | valid
    · exact validateChecksum_iff.mpr (.inl empty)
    · exact valid
  have valid := validateChecksum_of_toLower table lower
  have named : ∀ v ∈ (canonicalIndex raw).variants, v.compression ≠ [] := fun v mem => by
    obtain ⟨w, -, rfl⟩ := List.mem_map.mp mem
    exact compressionName_ne_nil w
  refine ⟨(spelledIndex raw).length, ⟨inside, ⟨_, marshalBinaryIndex_fits (indexFits_canonical fits valid), ?_⟩,
    (safe _ (Nat.zero_le _) inside).1 le_rfl, fun j short => ?_⟩, ?_⟩
  · rw [reads.take_eq]
    exact ⟨raw, _, rfl, encodeIndex_spelled named, respelledIndex_canonical current valid fits.variants⟩
  · exact (safe j (Nat.zero_le _) (by omega)).2 short
  · -- the shorter of two such lengths is a strict prefix of the other
    rintro k ⟨within, -, whole, cuts⟩
    rcases Nat.lt_trichotomy k (spelledIndex raw).length with shorter | same | longer
    · obtain ⟨err, failed, -⟩ := (safe k (Nat.zero_le _) within).2 shorter
      rw [whole] at failed
      cases failed
    · exact same
    · obtain ⟨err, failed, -⟩ := cuts _ longer
      rw [(safe _ (Nat.zero_le _) inside).1 le_rfl] at failed
      cases failed

end

section

local instance canonicalTable : CaseTable := CaseTable.ascii

theorem hexCase_ascii : HexCase := by
  intro r high c hex
  have low := (isHexChar_lower hex).1
  show r ≠ c.toNat
  omega

/-- A digest in upper case and no codec name. -/
def shoutedIndex : Index :=
  ⟨2, lit "app", lit "linux", lit "amd64", 0, 0, 0, [], 0, [⟨lit "v1", 0, 1, 1, List.replicate 64 65, []⟩]⟩

theorem unmarshalBinaryIndex_canonical_shouted :
    ∃! k, k ≤ (spelledIndex shoutedIndex ++ [0]).length ∧
      (∃ enc, marshalBinaryIndex (canonicalIndex shoutedIndex) = .ok enc ∧
        Respelled ((spelledIndex shoutedIndex ++ [0]).take k) enc) ∧
      unmarshalBinaryIndex ((spelledIndex shoutedIndex ++ [0]).take k) = .ok (canonicalIndex shoutedIndex) ∧
      ∀ j < k, ∃ err, unmarshalBinaryIndex ((spelledIndex shoutedIndex ++ [0]).take j) = Eval.fail err ∧
        Err.is err .errTruncatedIndex = true :=
  unmarshalBinaryIndex_canonical hexCase_ascii (except_ok_of_toOption (by decide +kernel)) (.inl rfl)

end

end Microfat.Format
