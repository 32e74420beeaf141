/-
# Microfat.Format.Binary — the Format v2 index table

`marshalBinaryIndex` sizes a buffer and stores the fields in place;
`unmarshalBinaryIndex` walks the same layout with a bound check before every
read.  `encodeIndex` is the byte string the encoder computes
(`marshalBinaryIndex_fits`), and decoding it gives the index back with lower-case
digests and default compression filled in (`unmarshalBinaryIndex_encodeIndex`).

Both directions are one lemma per field.  The loop over the variants is carried
by the cursor invariants of `Theory.Buffer`.
-/
import Microfat.Theory.Buffer
import Microfat.Format.Index

namespace Microfat.Format

open Theory Microarch
open Eval (bind_ok guard_false ok_bind)

set_option autoImplicit false

/-! ## Encoding -/

/-- `comp := v.Compression`, with the default for an empty name. -/
def compressionName (v : VariantEntry) : Bytes :=
  if v.compression = [] then defaultCompressionAlgorithm else v.compression

/-- The checks of the sizing loop on one variant, and the bytes it will take. -/
def sizeVariant (v : VariantEntry) : Eval Err Nat := do
  let comp := compressionName v
  Eval.guard (v.sha256 = [] || !validateChecksum v.sha256)
    (.about .errInvalidChecksum
      [.text "variant ", .str v.level, .text " missing required SHA-256 digest in Format v2"])
  Eval.guard (255 < v.level.length || 255 < v.sha256.length || 255 < comp.length)
    (.errorf [.text "variant ", .str v.level, .text " field length exceeds binary format limits"]
      [] [])
  return 1 + v.level.length + 8 + 8 + 8 + 1 + v.sha256.length + 1 + comp.length

def sizeVariants : Nat → List VariantEntry → Eval Err Nat
  | totalSize, [] => return totalSize
  | totalSize, v :: rest => do
      let size ← sizeVariant v
      sizeVariants (totalSize + size) rest

/-- A length byte and the string after it. -/
def storeString8 (buf : Bytes) (offset : Nat) (s : Bytes) : Eval Err (Bytes × Nat) := do
  let buf ← putAt buf offset [UInt8.ofNat s.length]
  let buf ← copyAt buf (offset + 1) s
  return (buf, offset + 1 + s.length)

def storeVariant (buf : Bytes) (offset : Nat) (v : VariantEntry) : Eval Err (Bytes × Nat) := do
  let (buf, offset) ← storeString8 buf offset v.level
  let buf ← putAt buf offset (putInt64 v.offset)
  let offset := offset + 8
  let buf ← putAt buf offset (putInt64 v.compressedSize)
  let offset := offset + 8
  let buf ← putAt buf offset (putInt64 v.uncompressedSize)
  let offset := offset + 8
  let (buf, offset) ← storeString8 buf offset v.sha256
  storeString8 buf offset (compressionName v)

def storeVariants : Bytes → Nat → List VariantEntry → Eval Err Bytes
  | buf, _, [] => return buf
  | buf, offset, v :: rest => do
      let (buf, offset) ← storeVariant buf offset v
      storeVariants buf offset rest

/-- The fixed header: magic, version, time stamp, dictionary place and identifier. -/
def storeFixed (buf : Bytes) (idx : Index) : Eval Err Bytes := do
  let buf ← putAt buf 0 indexMagicV2
  let buf ← putAt buf 4 (putUint16 formatVersion2.toNat)
  let buf ← putAt buf 6 (putInt64 idx.createdUnix)
  let buf ← putAt buf 14 (putInt64 idx.dictionaryOffset)
  let buf ← putAt buf 22 (putInt64 idx.dictionarySize)
  putAt buf 30 (putUint32 idx.dictionaryID)

/-- The strings of the header and the variant count. -/
def storeStrings (buf : Bytes) (offset : Nat) (idx : Index) : Eval Err (Bytes × Nat) := do
  let (buf, offset) ← storeString8 buf offset idx.dictionarySHA256
  let (buf, offset) ← storeString8 buf offset idx.targetOS
  let (buf, offset) ← storeString8 buf offset idx.targetArch
  let buf ← putAt buf offset (putUint16 idx.appName.length)
  let buf ← copyAt buf (offset + 2) idx.appName
  let buf ← putAt buf (offset + 2 + idx.appName.length) (putUint16 idx.variants.length)
  return (buf, offset + 2 + idx.appName.length + 2)

def marshalBinaryIndex (idx : Index) : Eval Err Bytes := do
  Eval.guard (255 < idx.targetOS.length || 255 < idx.targetArch.length ||
      65535 < idx.appName.length || 65535 < idx.variants.length || 255 < idx.dictionarySHA256.length)
    (.new "index metadata field exceeds binary format limits")
  Eval.guard (0 < idx.dictionarySize.toInt &&
      (idx.dictionarySHA256 = [] || !validateChecksum idx.dictionarySHA256))
    (.about .errInvalidChecksum
      [.text "dictionary missing required SHA-256 digest in Format v2"])
  let totalSize ← sizeVariants (34 + 1 + idx.dictionarySHA256.length + 1 + idx.targetOS.length +
    1 + idx.targetArch.length + 2 + idx.appName.length + 2) idx.variants
  let buf ← storeFixed (filled [] totalSize) idx
  let (buf, offset) ← storeStrings buf 34 idx
  storeVariants buf offset idx.variants

/-! ## The encoding as a concatenation -/

variable {v : VariantEntry} {vs : List VariantEntry} {done s : Bytes} {rest : Nat} {idx : Index}

def encodeString8 (s : Bytes) : Bytes := UInt8.ofNat s.length :: s

@[simp] theorem encodeString8_length (s : Bytes) : (encodeString8 s).length = 1 + s.length := by
  simp [encodeString8, Nat.add_comm]

def encodeVariant (v : VariantEntry) : Bytes :=
  encodeString8 v.level ++ (putInt64 v.offset ++ (putInt64 v.compressedSize ++
    (putInt64 v.uncompressedSize ++ (encodeString8 v.sha256 ++ encodeString8 (compressionName v)))))

def encodeVariants (vs : List VariantEntry) : Bytes := vs.flatMap encodeVariant

def encodeFixed (idx : Index) : Bytes :=
  indexMagicV2 ++ (putUint16 formatVersion2.toNat ++ (putInt64 idx.createdUnix ++
    (putInt64 idx.dictionaryOffset ++ (putInt64 idx.dictionarySize ++ putUint32 idx.dictionaryID))))

def encodeStrings (idx : Index) : Bytes :=
  encodeString8 idx.dictionarySHA256 ++ (encodeString8 idx.targetOS ++
    (encodeString8 idx.targetArch ++ (putUint16 idx.appName.length ++ (idx.appName ++
      putUint16 idx.variants.length))))

def encodeIndex (idx : Index) : Bytes :=
  encodeFixed idx ++ (encodeStrings idx ++ encodeVariants idx.variants)

theorem encodeFixed_length (idx : Index) : (encodeFixed idx).length = 34 := by
  have magic : indexMagicV2.length = 4 := by decide
  simp [encodeFixed, magic]

/-- What the sizing loop checks of one variant. -/
structure VariantFits (v : VariantEntry) : Prop where
  digest : v.sha256 ≠ [] ∧ validateChecksum v.sha256 = true
  level : v.level.length ≤ 255
  sha256 : v.sha256.length ≤ 255
  compression : (compressionName v).length ≤ 255

/-- What the encoder checks before it allocates. -/
structure IndexFits (idx : Index) : Prop where
  targetOS : idx.targetOS.length ≤ 255
  targetArch : idx.targetArch.length ≤ 255
  appName : idx.appName.length ≤ 65535
  count : idx.variants.length ≤ 65535
  dictionarySHA256 : idx.dictionarySHA256.length ≤ 255
  dictionary : 0 < idx.dictionarySize.toInt →
    idx.dictionarySHA256 ≠ [] ∧ validateChecksum idx.dictionarySHA256 = true
  variants : ∀ v ∈ idx.variants, VariantFits v

theorem sizeVariant_ok {n : Nat} (h : sizeVariant v = .ok n) :
    VariantFits v ∧ n = (encodeVariant v).length := by
  obtain ⟨_, digest, h⟩ := bind_ok h
  obtain ⟨_, fits, h⟩ := bind_ok h
  rw [Eval.guard_eq_ok] at digest fits
  simp only [Bool.or_eq_false_iff, decide_eq_false_iff_not, Bool.not_eq_false', Nat.not_lt] at digest fits
  refine ⟨⟨digest, fits.1.1, fits.1.2, fits.2⟩, ?_⟩
  cases h
  simp [encodeVariant]
  omega

theorem sizeVariants_ok {total n : Nat} (h : sizeVariants total vs = .ok n) :
    (∀ v ∈ vs, VariantFits v) ∧ n = total + (encodeVariants vs).length := by
  induction vs generalizing total with
  | nil =>
    cases h
    exact ⟨by simp, by simp [encodeVariants]⟩
  | cons v rest ih =>
    obtain ⟨size, sized, h⟩ := bind_ok h
    obtain ⟨fits, width⟩ := sizeVariant_ok sized
    obtain ⟨fitsRest, same⟩ := ih h
    refine ⟨List.forall_mem_cons.mpr ⟨fits, fitsRest⟩, ?_⟩
    rw [same, width, encodeVariants, encodeVariants, List.flatMap_cons, List.length_append]
    omega

theorem storeString8_filled {off : Nat} (cursor : off = done.length)
    (room : (encodeString8 s).length ≤ rest) :
    storeString8 (filled done rest) off s =
      .ok (filled (done ++ encodeString8 s) (rest - (encodeString8 s).length),
        off + (encodeString8 s).length) := by
  rw [encodeString8_length] at room ⊢
  rw [storeString8, putAt_filled cursor (by simp; omega), ok_bind,
    copyAt_filled (by simp [cursor]) (by simp; omega), ok_bind]
  simp only [encodeString8, List.append_assoc, List.singleton_append, List.length_singleton,
    Nat.sub_sub, Nat.add_assoc]
  rfl

theorem storeVariant_filled {off : Nat} (cursor : off = done.length)
    (room : (encodeVariant v).length ≤ rest) :
    storeVariant (filled done rest) off v =
      .ok (filled (done ++ encodeVariant v) (rest - (encodeVariant v).length),
        off + (encodeVariant v).length) := by
  simp only [encodeVariant, List.length_append, encodeString8_length, putInt64_length] at room ⊢
  rw [storeVariant, storeString8_filled cursor (by simp; omega), ok_bind]
  dsimp only
  rw [putAt_filled (by simp [cursor]) (by simp; omega), ok_bind,
    putAt_filled (by simp [cursor]; omega) (by simp; omega), ok_bind,
    putAt_filled (by simp [cursor]; omega) (by simp; omega), ok_bind,
    storeString8_filled (by simp [cursor]; omega) (by simp; omega), ok_bind]
  dsimp only
  rw [storeString8_filled (by simp [cursor]; omega) (by simp; omega)]
  simp only [encodeString8_length, putInt64_length, List.append_assoc, Nat.sub_sub, Nat.add_assoc]

theorem storeVariants_filled {off : Nat} (cursor : off = done.length) :
    storeVariants (filled done (encodeVariants vs).length) off vs =
      .ok (done ++ encodeVariants vs) := by
  -- the buffer is `done`, then as many zeros as the remaining variants take
  induction vs generalizing done off with
  | nil => simp [storeVariants, encodeVariants]; rfl
  | cons v rest ih =>
    have width : (encodeVariants (v :: rest)).length =
        (encodeVariant v).length + (encodeVariants rest).length := by
      simp [encodeVariants]
    rw [storeVariants, storeVariant_filled cursor (by omega), ok_bind]
    dsimp only
    rw [width, Nat.add_sub_cancel_left, ih (by simp [cursor])]
    simp [encodeVariants]

theorem storeFixed_filled (room : 34 ≤ rest) :
    storeFixed (filled [] rest) idx = .ok (filled (encodeFixed idx) (rest - 34)) := by
  have magic : indexMagicV2.length = 4 := by decide
  rw [storeFixed, putAt_filled (by simp) (by omega), ok_bind,
    putAt_filled (by simp [magic]) (by simp [magic]; omega), ok_bind,
    putAt_filled (by simp [magic]) (by simp [magic]; omega), ok_bind,
    putAt_filled (by simp [magic]) (by simp [magic]; omega), ok_bind,
    putAt_filled (by simp [magic]) (by simp [magic]; omega), ok_bind,
    putAt_filled (by simp [magic]) (by simp [magic]; omega)]
  simp [encodeFixed, magic, Nat.sub_sub]

theorem storeStrings_filled {off : Nat} (cursor : off = done.length)
    (room : (encodeStrings idx).length ≤ rest) :
    storeStrings (filled done rest) off idx =
      .ok (filled (done ++ encodeStrings idx) (rest - (encodeStrings idx).length),
        off + (encodeStrings idx).length) := by
  simp only [encodeStrings, List.length_append, encodeString8_length, putUint16_length] at room ⊢
  rw [storeStrings, storeString8_filled cursor (by simp; omega), ok_bind]
  dsimp only
  rw [storeString8_filled (by simp [cursor]) (by simp; omega), ok_bind]
  dsimp only
  rw [storeString8_filled (by simp [cursor]; omega) (by simp; omega), ok_bind]
  dsimp only
  rw [putAt_filled (by simp [cursor]; omega) (by simp; omega), ok_bind,
    copyAt_filled (by simp [cursor]; omega) (by simp; omega), ok_bind,
    putAt_filled (by simp [cursor]; omega) (by simp; omega), ok_bind]
  simp only [encodeString8_length, putUint16_length, List.append_assoc, Nat.sub_sub, Nat.add_assoc]
  rfl

theorem sizeVariants_fits (fits : ∀ v ∈ vs, VariantFits v) (total : Nat) :
    sizeVariants total vs = .ok (total + (encodeVariants vs).length) := by
  induction vs generalizing total with
  | nil => rfl
  | cons v rest ih =>
    obtain ⟨first, others⟩ := List.forall_mem_cons.mp fits
    have digest : (decide (v.sha256 = []) || !validateChecksum v.sha256) = false := by
      simpa using first.digest
    have lengths : (decide (255 < v.level.length) || decide (255 < v.sha256.length) ||
        decide (255 < (compressionName v).length)) = false := by
      simpa [and_assoc] using ⟨first.level, first.sha256, first.compression⟩
    have size : sizeVariant v = .ok (encodeVariant v).length := by
      rw [sizeVariant, digest, guard_false, ok_bind, lengths, guard_false, ok_bind]
      simp [encodeVariant, pure, Except.pure]
      omega
    rw [sizeVariants, size, ok_bind, ih others, encodeVariants, encodeVariants, List.flatMap_cons,
      List.length_append, Nat.add_assoc]

/-- In a buffer of the sum of the sizes the stores compute the concatenation. -/
theorem store_filled (idx : Index) :
    (do
      let buf ← storeFixed (filled [] (34 + (encodeStrings idx).length + (encodeVariants idx.variants).length)) idx
      let (buf, offset) ← storeStrings buf 34 idx
      storeVariants buf offset idx.variants : Eval Err Bytes) = .ok (encodeIndex idx) := by
  rw [storeFixed_filled (by omega), ok_bind,
    storeStrings_filled (encodeFixed_length idx).symm (by omega), ok_bind]
  dsimp only
  rw [show 34 + (encodeStrings idx).length + (encodeVariants idx.variants).length - 34 -
      (encodeStrings idx).length = (encodeVariants idx.variants).length by omega,
    storeVariants_filled (by simp [encodeFixed_length]), encodeIndex, List.append_assoc]

theorem encodeStrings_length (idx : Index) : 34 + (encodeStrings idx).length =
    34 + 1 + idx.dictionarySHA256.length + 1 + idx.targetOS.length + 1 + idx.targetArch.length + 2 +
      idx.appName.length + 2 := by
  simp [encodeStrings]
  omega

/-- **The in-place encoder computes the concatenation of the fields**, and it
returns only when every field fits its length field. -/
theorem marshalBinaryIndex_ok {enc : Bytes} (h : marshalBinaryIndex idx = .ok enc) :
    IndexFits idx ∧ enc = encodeIndex idx := by
  obtain ⟨_, fields, h⟩ := bind_ok h
  obtain ⟨_, dictionary, h⟩ := bind_ok h
  obtain ⟨total, sized, h⟩ := bind_ok h
  rw [Eval.guard_eq_ok] at fields dictionary
  simp only [Bool.or_eq_false_iff, Bool.and_eq_false_iff, decide_eq_false_iff_not,
    Bool.not_eq_false', Nat.not_lt] at fields dictionary
  obtain ⟨⟨⟨⟨os, arch⟩, app⟩, count⟩, dictSHA⟩ := fields
  obtain ⟨variants, total_eq⟩ := sizeVariants_ok sized
  refine ⟨⟨os, arch, app, count, dictSHA, ?_, variants⟩, ?_⟩
  · intro positive
    rcases dictionary with none | present
    · exact absurd positive none
    · exact present
  · rw [total_eq, ← encodeStrings_length, store_filled] at h
    exact (Except.ok.inj h).symm

/-- An index whose fields fit is encoded. -/
theorem marshalBinaryIndex_fits (fits : IndexFits idx) :
    marshalBinaryIndex idx = .ok (encodeIndex idx) := by
  have fields : (decide (255 < idx.targetOS.length) || decide (255 < idx.targetArch.length) ||
      decide (65535 < idx.appName.length) || decide (65535 < idx.variants.length) ||
      decide (255 < idx.dictionarySHA256.length)) = false := by
    simpa [and_assoc] using
      ⟨fits.targetOS, fits.targetArch, fits.appName, fits.count, fits.dictionarySHA256⟩
  have dictionary : (decide (0 < idx.dictionarySize.toInt) &&
      (decide (idx.dictionarySHA256 = []) || !validateChecksum idx.dictionarySHA256)) = false := by
    by_cases positive : 0 < idx.dictionarySize.toInt
    · simpa [positive] using fits.dictionary positive
    · simp [positive]
  rw [marshalBinaryIndex, fields, guard_false, ok_bind, dictionary, guard_false, ok_bind,
    sizeVariants_fits fits.variants, ok_bind, ← encodeStrings_length]
  exact store_filled idx

/-! ## Decoding -/

/-- `width` bytes, with the error when they are cut. -/
def loadBytes (data : Bytes) (offset width : Nat) (cut : Err) : Eval Err (Bytes × Nat) := do
  let stop ← addInt offset width
  Eval.guard (data.length < stop) cut
  return (← slice data offset stop, stop)

/-- A length byte and the string after it, with the errors for a missing length
and a cut string. -/
def loadString8 (data : Bytes) (offset : Nat) (noLength cut : Err) : Eval Err (Bytes × Nat) := do
  Eval.guard (data.length ≤ offset) noLength
  let len := (← byteAt data offset).toNat
  let offset ← addInt offset 1
  loadBytes data offset len cut

/-- A two-byte count, with the error for a missing one. -/
def loadUint16 (data : Bytes) (offset : Nat) (cut : Err) : Eval Err (Nat × Nat) := do
  let stop ← addInt offset 2
  Eval.guard (data.length < stop) cut
  return (leNat (← slice data offset stop), stop)

/-- A 64-bit field whose presence was checked before. -/
def loadInt64 (data : Bytes) (offset : Nat) : Eval Err (Int64 × Nat) := do
  let stop ← addInt offset 8
  return (int64 (← slice data offset stop), stop)

def truncated (message : List Part) : Err := .about .errTruncatedIndex message

section

variable [CaseTable]

def decodeBinaryVariant (data : Bytes) (offset i : Nat) : Eval Err (VariantEntry × Nat) := do
  let (level, offset) ← loadString8 data offset
    (truncated [.text "truncated variant ", .int i, .text " header"])
    (truncated [.text "truncated variant ", .int i, .text " level string"])
  Eval.guard (data.length < (← addInt offset 24))
    (truncated [.text "truncated variant ", .int i, .text " numeric fields"])
  let (vOffset, offset) ← loadInt64 data offset
  let (compSize, offset) ← loadInt64 data offset
  let (uncompSize, offset) ← loadInt64 data offset
  let (shaStr, offset) ← loadString8 data offset
    (truncated [.text "truncated variant ", .int i, .text " sha length"])
    (truncated [.text "truncated variant ", .int i, .text " sha string"])
  Eval.guard (shaStr = [] || !validateChecksum shaStr)
    (.about .errInvalidChecksum [.text "variant ", .int i,
      .text " missing or invalid sha256 checksum in Format v2"])
  let (compStr, offset) ← loadString8 data offset
    (truncated [.text "truncated variant ", .int i, .text " compression length"])
    (truncated [.text "truncated variant ", .int i, .text " compression string"])
  let compStr := if compStr = [] then defaultCompressionAlgorithm else compStr
  return (⟨level, vOffset, compSize, uncompSize, toLower shaStr, compStr⟩, offset)

/-- `count` variants from index `i` on. -/
def decodeVariants (data : Bytes) : Nat → Nat → Nat → Eval Err (List VariantEntry)
  | 0, _, _ => return []
  | count + 1, i, offset => do
      let (entry, offset) ← decodeBinaryVariant data offset i
      let rest ← decodeVariants data count (i + 1) offset
      return entry :: rest

/-- The fields of the fixed header after its magic and version. -/
structure Header where
  version : Int
  createdUnix : Int64
  dictOffset : Int64
  dictSize : Int64
  dictID : UInt32

def loadFixed (data : Bytes) : Eval Err Header := do
  Eval.guard (data.length < 34)
    (truncated [.text "binary index too short (", .int data.length, .text " bytes)"])
  let magic ← slice data 0 4
  Eval.guard (magic ≠ indexMagicV2) (.about .errInvalidMagic
    [.text "expected binary index magic ", .quoted indexMagicV2, .text ", got ", .quoted magic])
  let version : Int := leNat (← slice data 4 6)
  Eval.guard (version ≠ formatVersion2) (.about .errUnsupportedVersion
    [.text "expected binary index version ", .int formatVersion2, .text ", got ", .int version])
  let createdUnix := int64 (← slice data 6 14)
  let dictOffset := int64 (← slice data 14 22)
  let dictSize := int64 (← slice data 22 30)
  let dictID := uint32 (← slice data 30 34)
  return ⟨version, createdUnix, dictOffset, dictSize, dictID⟩

def unmarshalBinaryIndex (data : Bytes) : Eval Err Index := do
  let header ← loadFixed data
  let (dictSHA, offset) ← loadString8 data 34
    (truncated [.text "truncated dictionary sha length"])
    (truncated [.text "truncated dictionary sha string"])
  Eval.guard (0 < header.dictSize.toInt && (dictSHA = [] || !validateChecksum dictSHA))
    (.about .errInvalidChecksum
      [.text "dictionary missing or invalid sha256 checksum in Format v2"])
  let (targetOS, offset) ← loadString8 data offset
    (truncated [.text "truncated os length"]) (truncated [.text "truncated os string"])
  let (targetArch, offset) ← loadString8 data offset
    (truncated [.text "truncated arch length"]) (truncated [.text "truncated arch string"])
  let (appLen, offset) ← loadUint16 data offset (truncated [.text "truncated app name length"])
  let (appName, offset) ← loadBytes data offset appLen
    (truncated [.text "truncated app name string"])
  let (variantCount, offset) ← loadUint16 data offset (truncated [.text "truncated variant count"])
  let variants ← decodeVariants data variantCount 0 offset
  return { version := header.version, appName, targetOS, targetArch,
           createdUnix := header.createdUnix, dictionaryOffset := header.dictOffset,
           dictionarySize := header.dictSize, dictionarySHA256 := toLower dictSHA,
           dictionaryID := header.dictID, variants }

end

/-! ## Decoding what was encoded -/

/-- What the decoder returns for an encoded variant. -/
def canonicalVariant [CaseTable] (v : VariantEntry) : VariantEntry :=
  { v with sha256 := toLower v.sha256, compression := compressionName v }

/-- What the decoder returns for an encoded index: Format v2, lower-case digests,
the default name in place of an empty compression. -/
def canonicalIndex [CaseTable] (idx : Index) : Index :=
  { idx with
    version := formatVersion2
    dictionarySHA256 := toLower idx.dictionarySHA256
    variants := idx.variants.map canonicalVariant }

theorem compressionName_ne_nil (v : VariantEntry) : compressionName v ≠ [] := by
  unfold compressionName
  split
  · decide
  · assumption

theorem loadFixed_reads {data : Bytes} (reads : Reads data 0 (encodeFixed idx)) :
    loadFixed data = .ok ⟨formatVersion2, idx.createdUnix, idx.dictionaryOffset,
      idx.dictionarySize, idx.dictionaryID⟩ := by
  have inside := reads.length_le
  rw [encodeFixed_length] at inside
  have magicLen : indexMagicV2.length = 4 := by decide
  have long : decide (data.length < 34) = false := by simp; omega
  have magic := reads.left
  have version := reads.right.left
  have created := reads.right.right.left
  have dictOffset := reads.right.right.right.left
  have dictSize := reads.right.right.right.right.left
  have dictID := reads.right.right.right.right.right
  have versionValue : ((leNat (putUint16 formatVersion2.toNat) : Nat) : Int) = formatVersion2 := by
    decide
  simp only [magicLen, putUint16_length, putInt64_length] at version created dictOffset dictSize dictID
  rw [loadFixed, long, guard_false, ok_bind, magic.slice_eq (by simp [magicLen]),
    ok_bind, decide_eq_false (by simp), guard_false, ok_bind,
    version.slice_eq (by simp), ok_bind]
  dsimp only
  rw [versionValue, decide_eq_false (by simp), guard_false, ok_bind,
    created.slice_eq (by simp), ok_bind, dictOffset.slice_eq (by simp), ok_bind,
    dictSize.slice_eq (by simp), ok_bind, dictID.slice_eq (by simp), ok_bind,
    int64_putInt64, int64_putInt64, int64_putInt64, uint32_putUint32]
  rfl

section RoundTrip

variable {data : Bytes} {off : Nat} (small : data.length < 2 ^ 62)

include small

variable {cut : Err}

theorem loadBytes_reads (reads : Reads data off s) :
    loadBytes data off s.length cut = .ok (s, off + s.length) := by
  have inside := reads.length_le
  have notCut : decide (data.length < off + s.length) = false := by simp; omega
  rw [loadBytes, addInt_of_fits (by omega), ok_bind, notCut, guard_false, ok_bind,
    reads.slice_eq rfl, ok_bind]
  rfl

theorem loadString8_reads {noLength : Err} (fits : s.length ≤ 255)
    (reads : Reads data off (encodeString8 s)) :
    loadString8 data off noLength cut = .ok (s, off + (encodeString8 s).length) := by
  have inside := reads.length_le
  rw [encodeString8_length] at inside ⊢
  have present : decide (data.length ≤ off) = false := by simp; omega
  have lengthByte : (UInt8.ofNat s.length).toNat = s.length := by
    rw [UInt8.toNat_ofNat']
    omega
  have body : Reads data (off + 1) s := Reads.right (a := [UInt8.ofNat s.length]) reads
  rw [loadString8, present, guard_false, ok_bind, reads.byteAt_eq, ok_bind,
    addInt_of_fits (by omega), ok_bind, lengthByte, loadBytes_reads small body, Nat.add_assoc]

theorem loadUint16_reads {v : Nat} (fits : v ≤ 65535) (reads : Reads data off (putUint16 v)) :
    loadUint16 data off cut = .ok (v, off + 2) := by
  have inside := reads.length_le
  rw [putUint16_length] at inside
  have notCut : decide (data.length < off + 2) = false := by simp; omega
  rw [loadUint16, addInt_of_fits (by omega), ok_bind, notCut, guard_false, ok_bind,
    reads.slice_eq (by simp), ok_bind, leNat_putUint16 (by omega)]
  rfl

theorem loadInt64_reads {v : Int64} (reads : Reads data off (putInt64 v)) :
    loadInt64 data off = .ok (v, off + 8) := by
  have inside := reads.length_le
  rw [putInt64_length] at inside
  rw [loadInt64, addInt_of_fits (by omega), ok_bind, reads.slice_eq (by simp), ok_bind,
    int64_putInt64]
  rfl

theorem decodeBinaryVariant_reads [CaseTable] {i : Nat} (fits : VariantFits v)
    (reads : Reads data off (encodeVariant v)) :
    decodeBinaryVariant data off i = .ok (canonicalVariant v, off + (encodeVariant v).length) := by
  have level := reads.left
  have offset := reads.right.left
  have compressed := reads.right.right.left
  have uncompressed := reads.right.right.right.left
  have sha := reads.right.right.right.right.left
  have compression := reads.right.right.right.right.right
  have inside := reads.length_le
  simp only [encodeVariant, List.length_append, putInt64_length, encodeString8_length] at *
  have numeric : decide (data.length < off + (1 + v.level.length) + 24) = false := by simp; omega
  have digest : (decide (v.sha256 = []) || !validateChecksum v.sha256) = false := by
    simpa using fits.digest
  rw [decodeBinaryVariant, loadString8_reads small fits.level level, ok_bind]
  dsimp only
  rw [encodeString8_length, addInt_of_fits (by omega), ok_bind, numeric, guard_false,
    ok_bind, loadInt64_reads small offset, ok_bind]
  dsimp only
  rw [loadInt64_reads small compressed, ok_bind]
  dsimp only
  rw [loadInt64_reads small uncompressed, ok_bind]
  dsimp only
  rw [loadString8_reads small fits.sha256 sha, ok_bind]
  dsimp only
  rw [digest, guard_false, ok_bind, encodeString8_length,
    loadString8_reads small fits.compression compression, ok_bind]
  dsimp only
  rw [if_neg (compressionName_ne_nil v), encodeString8_length]
  simp only [canonicalVariant, Nat.add_assoc]
  rfl

theorem decodeVariants_reads [CaseTable] {i : Nat} (fits : ∀ v ∈ vs, VariantFits v)
    (reads : Reads data off (encodeVariants vs)) :
    decodeVariants data vs.length i off = .ok (vs.map canonicalVariant) := by
  induction vs generalizing i off with
  | nil => rfl
  | cons v rest ih =>
    rw [encodeVariants, List.flatMap_cons] at reads
    obtain ⟨fitsHead, fitsRest⟩ := List.forall_mem_cons.mp fits
    rw [List.length_cons, decodeVariants, decodeBinaryVariant_reads small fitsHead reads.left,
      ok_bind]
    dsimp only
    rw [ih fitsRest reads.right, ok_bind]
    rfl

end RoundTrip

/-- **Decoding an encoded index gives its canonical form.** -/
theorem unmarshalBinaryIndex_encodeIndex [CaseTable] (fits : IndexFits idx)
    (small : (encodeIndex idx).length < 2 ^ 62) :
    unmarshalBinaryIndex (encodeIndex idx) = .ok (canonicalIndex idx) := by
  have reads : Reads (encodeIndex idx) 0 (encodeIndex idx) :=
    ⟨Nat.zero_le _, List.prefix_refl _⟩
  have strings := reads.right.left
  have dictSHA := strings.left
  have os := strings.right.left
  have arch := strings.right.right.left
  have appLen := strings.right.right.right.left
  have appName := strings.right.right.right.right.left
  have count := strings.right.right.right.right.right
  have variants := reads.right.right
  simp only [encodeFixed_length, encodeStrings, List.length_append, encodeString8_length,
    putUint16_length, Nat.zero_add] at dictSHA os arch appLen appName count variants
  have digest : (decide (0 < idx.dictionarySize.toInt) &&
      (decide (idx.dictionarySHA256 = []) || !validateChecksum idx.dictionarySHA256)) = false := by
    by_cases positive : 0 < idx.dictionarySize.toInt
    · simpa [positive] using fits.dictionary positive
    · simp [positive]
  rw [unmarshalBinaryIndex, loadFixed_reads reads.left, ok_bind,
    loadString8_reads small fits.dictionarySHA256 dictSHA, ok_bind]
  dsimp only
  rw [digest, guard_false, ok_bind, encodeString8_length,
    loadString8_reads small fits.targetOS os, ok_bind]
  dsimp only
  rw [encodeString8_length, loadString8_reads small fits.targetArch arch, ok_bind]
  dsimp only
  rw [encodeString8_length, loadUint16_reads small fits.appName appLen, ok_bind]
  dsimp only
  rw [loadBytes_reads small appName, ok_bind]
  dsimp only
  rw [loadUint16_reads small fits.count count, ok_bind]
  dsimp only
  simp only [Nat.add_assoc] at variants ⊢
  rw [decodeVariants_reads small fits.variants variants, ok_bind]
  rfl

end Microfat.Format
