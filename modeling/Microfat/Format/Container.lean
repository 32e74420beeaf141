/-
# Microfat.Format.Container — the container tail: index and trailer

A container ends with the index table and a 56-byte trailer: the offset and the
size of the index, its SHA-256 digest and a magic.  `readTrailerAndIndex` starts
from the trailer, `writeIndexAndTrailer` appends both parts.  Reading what was
written at the end of a file gives the canonical index back
(`readTrailerAndIndex_writeIndexAndTrailer`); only the width of the digest is
used, nothing else about SHA-256.
-/
import Microfat.Theory.Sha256
import Microfat.Theory.Stream
import Microfat.Format.Binary

namespace Microfat.Format

open Theory Microarch
open Eval (bind_ok guard_pass mapError_ok ok_bind)

set_option autoImplicit false

/-! ## Readers and writers -/

/-- `ReadAt` on an in-memory file: short reads are `io.EOF`. -/
def readAt (file : Bytes) (offset : Int) (len : Nat) : Eval Err Bytes := do
  Eval.guard (offset < 0) (.new "bytes.Reader.ReadAt: negative offset")
  Eval.guard ((file.length : Int) ≤ offset) (.sentinel .ioEOF)
  let piece := (file.drop offset.toNat).take len
  Eval.guard (piece.length < len) (.sentinel .ioEOF)
  return piece

/-- `n, err := w.Write(piece)`, with the error dressed on its way up. -/
def writeTo {σ : Type} (w : ByteWriter σ Err) (message : String) (out : σ) (piece : Bytes) :
    Eval Err (σ × Nat) :=
  match (w out piece).err with
  | none => .ok ((w out piece).state, (w out piece).n)
  | some err => Eval.fail (.wrap [.text message, .cause] [err])

theorem readAt_append (before piece after : Bytes) (present : piece ≠ []) :
    readAt (before ++ piece ++ after) before.length piece.length = .ok piece := by
  have positive := List.length_pos_of_ne_nil present
  have found : List.take piece.length (List.drop before.length (before ++ piece ++ after)) = piece := by
    rw [List.append_assoc, List.drop_left, List.take_left]
  rw [readAt, guard_pass (by simp), ok_bind,
    guard_pass (by simp; omega), ok_bind]
  dsimp only
  rw [Int.toNat_natCast, found, guard_pass (by simp), ok_bind]
  rfl

/-- A read returns what it was asked for; its errors do not mean a missing trailer, and a read
inside the file has none. -/
theorem readAt_ends (file : Bytes) (offset : Int) (len : Nat) :
    (readAt file offset len).Ends
      (fun piece => 0 ≤ offset ∧ piece = (file.drop offset.toNat).take len ∧ piece.length = len)
      fun e => Other e ∧ (0 < len → 0 ≤ offset → (file.length : Int) < offset + len) := by
  have eof : Other (.sentinel .ioEOF) := by simp [Other, isMissingTrailerError, Err.is, Sentinel.same]
  refine .guarded (fun negative => ⟨by simp [Other, isMissingTrailerError, Err.is], fun _ _ => ?_⟩) fun nonneg =>
    .guarded (fun beyond => ⟨eof, fun _ _ => ?_⟩) fun inside => .guarded (fun short => ⟨eof, fun _ _ => ?_⟩) fun long => ?_
  · simp only [decide_eq_true_eq] at negative
    omega
  · simp only [decide_eq_true_eq] at beyond
    omega
  · simp only [decide_eq_true_eq, List.length_take, List.length_drop] at short
    omega
  · simp only [decide_eq_false_iff_not, Int.not_lt, Nat.not_lt] at nonneg long
    exact ⟨nonneg, rfl, Nat.le_antisymm (by simp) long⟩

/-! ## The trailer -/

/-- `bytes.TrimLeft(data, " \t\r\n")`, then a look at the first byte. -/
def looksLikeLegacyJSONIndex (data : Bytes) : Bool :=
  (data.dropWhile fun b => b = 32 || b = 9 || b = 13 || b = 10).head? = some 123

section

variable [CaseTable] (H : Sha256)

def readTrailerAndIndex (file : Bytes) (totalSize : Int64) : Eval Err Index := do
  Eval.guard (totalSize.toInt < trailerSize)
    (.about .errBinaryTooSmall [.text "file size ", .int totalSize.toInt,
      .text " bytes is smaller than trailer size ", .int trailerSize, .text " bytes"])
  let trailerOffset ← sub64 totalSize (Int64.ofNat trailerSize)
  let trailerBuf ← Eval.mapError
    (fun err => .wrap [.cause, .text ": reading trailer from file: ", .cause]
      [.sentinel .errTrailerRead, err])
    (readAt file trailerOffset.toInt trailerSize)
  Eval.guard ((← slice trailerBuf 48 56) ≠ magicString) (.sentinel .errInvalidMagic)
  let indexOffset := int64 (← slice trailerBuf 0 8)
  let indexSize := int64 (← slice trailerBuf 8 16)
  Eval.guard (indexOffset.toInt < 0 || trailerOffset.toInt ≤ indexOffset.toInt)
    (.about .errInvalidIndexOffset [.text "offset ", .int indexOffset.toInt,
      .text " beyond trailer ", .int trailerOffset.toInt])
  let mismatch : Err := .about .errInvalidIndexSize [.text "index size ", .int indexSize.toInt,
    .text " with offset ", .int indexOffset.toInt, .text " does not match trailer boundary ",
    .int trailerOffset.toInt]
  Eval.guard (indexSize.toInt ≤ 0 || (maxIndexSize : Int) < indexSize.toInt) mismatch
  let room ← sub64 trailerOffset indexOffset
  Eval.guard (indexSize ≠ room) mismatch
  let expectedHash ← slice trailerBuf 16 48
  let idxBytes ← Eval.mapError
    (fun err => .wrap [.text "reading index payload at offset ", .int indexOffset.toInt,
      .text ": ", .cause] [err])
    (readAt file indexOffset.toInt indexSize.toInt.toNat)
  let actualHash := H.sum idxBytes
  Eval.guard (actualHash ≠ expectedHash)
    (.about .errIndexCorrupted
      [.text "expected ", .hex expectedHash, .text ", got ", .hex actualHash])
  Eval.guard (looksLikeLegacyJSONIndex idxBytes)
    (.wrap [.text "deserializing index: ", .cause,
      .text ": legacy Format v1 JSON manifests were removed in v0.4.0; re-package with Format v2 using 'microfat pack'"]
      [.sentinel .errUnsupportedVersion])
  let idx ← Eval.mapError (fun err => .wrap [.text "deserializing index: ", .cause] [err])
    (unmarshalBinaryIndex idxBytes)
  Eval.mapError (fun err => .wrap [.text "validating variant boundaries: ", .cause] [err])
    (validateBounds idx indexOffset)
  return idx

end

section

variable (H : Sha256) {σ : Type} (w : ByteWriter σ Err)

def buildTrailer (currentOffset : Int64) (idxBytes : Bytes) : Eval Err Bytes := do
  let trailer := filled [] trailerSize
  let trailer ← putAt trailer 0 (putInt64 currentOffset)
  let trailer ← putAt trailer 8 (putInt64 (Int64.ofNat idxBytes.length))
  let trailer ← copyAt trailer 16 (H.sum idxBytes)
  copyAt trailer 48 magicString

/-- Returns the writer's state, the index (whose version it sets) and the number
of bytes written. -/
def writeIndexAndTrailerWithVersion (out : σ) (idx : Index) (currentOffset : Int64) (version : Int) :
    Eval Err (σ × Index × Nat) := do
  Eval.guard (currentOffset.toInt < 0)
    (.errorf [.text "invalid negative offset ", .int currentOffset.toInt] [] [])
  Eval.guard (version = formatVersion1)
    (.about .errUnsupportedVersion [.text "Format v1 was removed in v0.4.0; use Format v2"])
  Eval.guard (version ≠ formatVersion2) (.about .errUnsupportedVersion [.int version])
  let idx := { idx with version := formatVersion2 }
  let idxBytes ← Eval.mapError
    (fun err => .wrap [.text "marshaling binary index: ", .cause] [err]) (marshalBinaryIndex idx)
  Eval.guard (maxIndexSize < idxBytes.length)
    (.errorf [.text "index size ", .int idxBytes.length, .text " exceeds maximum ",
      .int maxIndexSize] [] [])
  let (out, n) ← writeTo w "writing index: " out idxBytes
  let trailer ← buildTrailer H currentOffset idxBytes
  let (out, tn) ← writeTo w "writing trailer: " out trailer
  return (out, idx, n + tn)

def writeIndexAndTrailer (out : σ) (idx : Index) (currentOffset : Int64) :
    Eval Err (σ × Index × Nat) :=
  let version := if idx.version = 0 then formatVersion2 else idx.version
  writeIndexAndTrailerWithVersion H w out idx currentOffset version

end

/-! ## Reading back what was written -/

variable {idx idx' : Index} {currentOffset : Int64} {enc : Bytes} {o : Int64}

def encodeTrailer (H : Sha256) (currentOffset : Int64) (enc : Bytes) : Bytes :=
  putInt64 currentOffset ++ (putInt64 (Int64.ofNat enc.length) ++ (H.sum enc ++ magicString))

theorem magicString_length : magicString.length = 8 := by decide

section

variable (H : Sha256) (currentOffset : Int64) (enc : Bytes)

@[simp] theorem encodeTrailer_length : (encodeTrailer H currentOffset enc).length = 56 := by
  simp [encodeTrailer, H.sum_length, magicString_length]

theorem buildTrailer_eq :
    buildTrailer H currentOffset enc = .ok (encodeTrailer H currentOffset enc) := by
  have width := H.sum_length enc
  rw [buildTrailer, putAt_filled (by simp) (by simp [trailerSize]), ok_bind,
    putAt_filled (by simp) (by simp [trailerSize]), ok_bind,
    copyAt_filled (by simp) (by simp [trailerSize, width]), ok_bind,
    copyAt_filled (by simp [width]) (by simp [trailerSize, width, magicString_length])]
  simp [encodeTrailer, trailerSize, width, magicString_length]

end

/-- What a writer that takes everything is handed, and when. -/
theorem writeIndexAndTrailerWithVersion_iff {H : Sha256} {σ : Type} {w : ByteWriter σ Err}
    (takes : ∀ s piece, (w s piece).err = none ∧ (w s piece).n = piece.length) {out out' : σ}
    {version : Int} {n : Nat} :
    writeIndexAndTrailerWithVersion H w out idx currentOffset version = .ok (out', idx', n) ↔
      ∃ enc, 0 ≤ currentOffset.toInt ∧ version = formatVersion2 ∧
        marshalBinaryIndex { idx with version := formatVersion2 } = .ok enc ∧ enc.length ≤ maxIndexSize ∧
        out' = (w (w out enc).state (encodeTrailer H currentOffset enc)).state ∧
        idx' = { idx with version := formatVersion2 } ∧ n = enc.length + 56 := by
  have writes : ∀ message s piece, writeTo w message s piece = .ok ((w s piece).state, piece.length) := by
    intro message s piece
    rw [writeTo, (takes s piece).1, (takes s piece).2]
  constructor
  · intro h
    obtain ⟨_, nonneg, h⟩ := bind_ok h
    obtain ⟨_, -, h⟩ := bind_ok h
    obtain ⟨_, current, h⟩ := bind_ok h
    obtain ⟨enc, encoded, h⟩ := bind_ok h
    obtain ⟨_, small, h⟩ := bind_ok h
    rw [writes, ok_bind] at h
    dsimp only at h
    rw [buildTrailer_eq, ok_bind, writes, ok_bind, encodeTrailer_length] at h
    cases h
    simp only [Eval.guard_eq_ok, decide_eq_false_iff_not, Nat.not_lt, Int.not_lt, not_not] at nonneg current small
    exact ⟨enc, nonneg, current, Eval.mapError_eq_ok encoded, small, rfl, rfl, rfl⟩
  · rintro ⟨enc, nonneg, rfl, encoded, small, rfl, rfl, rfl⟩
    rw [writeIndexAndTrailerWithVersion, guard_pass (by simpa using nonneg), ok_bind,
      guard_pass (by decide), ok_bind, guard_pass (by decide), ok_bind]
    dsimp only
    rw [encoded, mapError_ok, ok_bind, guard_pass (by simpa using small), ok_bind, writes,
      ok_bind]
    dsimp only
    rw [buildTrailer_eq, ok_bind, writes, ok_bind, encodeTrailer_length]
    rfl

theorem writeIndexAndTrailer_buffer {H : Sha256}
    (version : idx.version = 0 ∨ idx.version = formatVersion2) (nonneg : 0 ≤ currentOffset.toInt)
    (encodes : marshalBinaryIndex { idx with version := formatVersion2 } = .ok enc)
    (small : enc.length ≤ maxIndexSize) (out : Bytes) :
    writeIndexAndTrailer H buffer out idx currentOffset =
      .ok (out ++ enc ++ encodeTrailer H currentOffset enc,
        { idx with version := formatVersion2 }, enc.length + 56) := by
  have chosen : (if idx.version = 0 then formatVersion2 else idx.version) = formatVersion2 := by
    rcases version with zero | two
    · rw [if_pos zero]
    · rw [two]; rfl
  rw [writeIndexAndTrailer, chosen]
  exact (writeIndexAndTrailerWithVersion_iff fun _ _ => ⟨rfl, rfl⟩).mpr
    ⟨enc, nonneg, rfl, encodes, small, rfl, rfl, rfl⟩

/-- The checks of the reader before it decodes pass on a well-placed tail. -/
theorem readTrailerAndIndex_tail [CaseTable] {H : Sha256} {before : Bytes} {totalSize : Int64}
    (place : (before.length : Int) = o.toInt) (present : enc ≠ []) (small : enc.length ≤ maxIndexSize)
    (binary : looksLikeLegacyJSONIndex enc = false)
    (whole : totalSize.toInt = (before ++ enc ++ encodeTrailer H o enc).length) :
    readTrailerAndIndex H (before ++ enc ++ encodeTrailer H o enc) totalSize = (do
      let idx ← Eval.mapError (fun err => .wrap [.text "deserializing index: ", .cause] [err])
        (unmarshalBinaryIndex enc)
      Eval.mapError (fun err => .wrap [.text "validating variant boundaries: ", .cause] [err])
        (validateBounds idx o)
      return idx) := by
  have positive := List.length_pos_of_ne_nil present
  have digest := H.sum_length enc
  simp only [List.length_append, encodeTrailer_length, maxIndexSize] at whole small
  have reads : Reads (encodeTrailer H o enc) 0 (encodeTrailer H o enc) :=
    ⟨Nat.zero_le _, List.prefix_refl _⟩
  have offsetField := reads.left
  have sizeField := reads.right.left
  have hashField := reads.right.right.left
  have magicField := reads.right.right.right
  simp only [putInt64_length, digest, Nat.zero_add] at sizeField hashField magicField
  have sizeVal : (Int64.ofNat enc.length).toInt = enc.length := Int64.toInt_ofNat_of_lt (by omega)
  have trailerVal : (Int64.ofNat trailerSize).toInt = 56 := by decide
  obtain ⟨trailerOffset, trailerEq, trailerPlace⟩ :=
    sub64_ordered (E := Err) (a := totalSize) (b := Int64.ofNat trailerSize) (by omega) (by omega)
  obtain ⟨room, roomEq, roomVal⟩ :=
    sub64_ordered (E := Err) (a := trailerOffset) (b := o) (by omega) (by omega)
  have roomSize : Int64.ofNat enc.length = room := Int64.toInt_inj.mp (by omega)
  have trailerRead : readAt (before ++ enc ++ encodeTrailer H o enc) trailerOffset.toInt
      trailerSize = .ok (encodeTrailer H o enc) := by
    have at_end := readAt_append (before ++ enc) (encodeTrailer H o enc) []
      (List.ne_nil_of_length_pos (by simp))
    rw [List.append_nil, encodeTrailer_length, List.length_append] at at_end
    rw [show trailerOffset.toInt = ((before.length + enc.length : Nat) : Int) by omega]
    exact at_end
  have indexRead : readAt (before ++ enc ++ encodeTrailer H o enc) o.toInt
      (Int64.ofNat enc.length).toInt.toNat = .ok enc := by
    rw [sizeVal, Int.toNat_natCast, ← place]
    exact readAt_append before enc _ present
  have long : decide (totalSize.toInt < (trailerSize : Int)) = false :=
    decide_eq_false (by have : (trailerSize : Int) = 56 := rfl; omega)
  have sizeOk : (decide ((Int64.ofNat enc.length).toInt ≤ 0) ||
      decide ((maxIndexSize : Int) < (Int64.ofNat enc.length).toInt)) = false := by
    rw [sizeVal, Bool.or_eq_false_iff]
    exact ⟨decide_eq_false (by omega), decide_eq_false (by simp only [maxIndexSize]; omega)⟩
  rw [readTrailerAndIndex, long, Eval.guard_false, ok_bind,
    trailerEq, ok_bind, trailerRead, mapError_ok, ok_bind,
    magicField.slice_eq (by simp [magicString_length]), ok_bind,
    guard_pass (by simp), ok_bind, offsetField.slice_eq (by simp), ok_bind,
    sizeField.slice_eq (by simp), ok_bind, int64_putInt64, int64_putInt64]
  dsimp only
  rw [guard_pass (by simp; omega), ok_bind,
    sizeOk, Eval.guard_false, ok_bind, roomEq, ok_bind,
    guard_pass (by simp [roomSize]), ok_bind, hashField.slice_eq (by simp [digest]),
    ok_bind, indexRead, mapError_ok, ok_bind,
    guard_pass (by simp), ok_bind, binary, Eval.guard_false, ok_bind]

/-! ## The canonical index passes the same checks -/

section

variable (arch : idx'.targetArch = idx.targetArch) (size : idx'.dictionarySize = idx.dictionarySize)

include arch size

theorem canonicalVariant_ok [CaseTable] {indexOffset lastEnd nextEnd : Int64} {i : Nat} {seen : List Bytes}
    {v : VariantEntry} (ok : VariantOk idx indexOffset i seen lastEnd v nextEnd) :
    VariantOk idx' indexOffset i seen lastEnd (canonicalVariant v) nextEnd := by
  obtain ⟨named, tier, unseen, offset, compressed, uncompressed, payload, after, digest, next,
    inside⟩ := ok
  refine ⟨named, arch ▸ tier, unseen, offset, compressed, uncompressed, payload, size ▸ after, ?_,
    next, inside⟩
  exact toLower_digest digest.1 digest.2

theorem validateVariantsFrom_canonical [CaseTable] {indexOffset : Int64} {vs : List VariantEntry} :
    ∀ {i : Nat} {seen : List Bytes} {lastEnd : Int64},
      validateVariantsFrom idx indexOffset i seen lastEnd vs = .ok () →
      validateVariantsFrom idx' indexOffset i seen lastEnd (vs.map canonicalVariant) = .ok () := by
  induction vs with
  | nil => exact fun h => h
  | cons v rest ih =>
    intro i seen lastEnd h
    obtain ⟨nextEnd, head, tail⟩ := bind_ok h
    rw [List.map_cons, validateVariantsFrom,
      (canonicalVariant_ok arch size (validateVariantAt_ends.returns head)).validates, ok_bind]
    exact ih tail

end

theorem canonicalIndex_bounds [CaseTable] (bounds : validateBounds idx o = .ok ()) :
    validateBounds (canonicalIndex idx) o = .ok () := by
  obtain ⟨lastEnd, ok⟩ := validateBounds_ok bounds
  have arch_eq : (canonicalIndex idx).targetArch = idx.targetArch := rfl
  have size_eq : (canonicalIndex idx).dictionarySize = idx.dictionarySize := rfl
  have variants := validateVariantsFrom_canonical arch_eq size_eq ok.variants
  have dictionary : DictionaryOk (canonicalIndex idx) o lastEnd := by
    cases ok.dictionary with
    | none empty => exact .none empty
    | some lastEnd positive small place present valid next inside =>
      obtain ⟨present', valid'⟩ := toLower_digest present valid
      exact .some lastEnd positive small place present' valid' next inside
  have nonempty : (canonicalIndex idx).variants ≠ [] := by
    simpa [canonicalIndex] using ok.nonempty
  have checked : BoundsOk (canonicalIndex idx) o lastEnd :=
    ⟨rfl, ok.nonneg, nonempty, ok.arch, dictionary, variants⟩
  exact checked.validates

theorem encodeIndex_binary (idx : Index) :
    encodeIndex idx ≠ [] ∧ looksLikeLegacyJSONIndex (encodeIndex idx) = false := by
  have magic : indexMagicV2 = 0 :: [250, 77, 50] := by decide
  simp [encodeIndex, encodeFixed, magic, looksLikeLegacyJSONIndex]

/-- Lower-case hexadecimal text, byte by byte. -/
def lowerHex (s : Bytes) : Bytes := s.map lowerByte

theorem canonicalIndex_lowerHex [CaseTable] (dictionary : validateChecksum idx.dictionarySHA256 = true)
    (variants : ∀ v ∈ idx.variants, VariantFits v) :
    canonicalIndex idx =
      { idx with
        version := 2
        dictionarySHA256 := lowerHex idx.dictionarySHA256
        variants := idx.variants.map fun v =>
          { v with
            sha256 := lowerHex v.sha256
            compression := if v.compression = [] then lit "zstd" else v.compression } } := by
  have each : idx.variants.map canonicalVariant = idx.variants.map fun v =>
      { v with
        sha256 := lowerHex v.sha256
        compression := if v.compression = [] then lit "zstd" else v.compression } := by
    apply List.map_congr_left
    intro v mem
    rw [canonicalVariant, toLower_ascii (validateChecksum_ascii (variants v mem).digest.2)]
    rfl
  rw [canonicalIndex, each, toLower_ascii (validateChecksum_ascii dictionary)]
  rfl

/-- A tail that holds the encoding of an index within bounds is read back as the
canonical index. -/
theorem readTrailerAndIndex_encoded [CaseTable] {H : Sha256} {before : Bytes}
    (bounds : validateBounds { idx with version := 2 } o = .ok ())
    (encodes : marshalBinaryIndex { idx with version := 2 } = .ok enc)
    (small : enc.length ≤ maxIndexSize) (place : (before.length : Int) = o.toInt) {totalSize : Int64}
    (whole : totalSize.toInt = (before ++ enc ++ encodeTrailer H o enc).length) :
    readTrailerAndIndex H (before ++ enc ++ encodeTrailer H o enc) totalSize =
      .ok (canonicalIndex idx) := by
  obtain ⟨fits, enc_eq⟩ := marshalBinaryIndex_ok encodes
  have same : encodeIndex { idx with version := 2 } = encodeIndex idx := rfl
  obtain ⟨present, binary⟩ := encodeIndex_binary idx
  rw [same] at enc_eq
  subst enc_eq
  have decoded : unmarshalBinaryIndex (encodeIndex idx) = .ok (canonicalIndex idx) := by
    have fits' : IndexFits idx := ⟨fits.targetOS, fits.targetArch, fits.appName, fits.count,
      fits.dictionarySHA256, fits.dictionary, fits.variants⟩
    apply unmarshalBinaryIndex_encodeIndex fits'
    simp only [maxIndexSize] at small
    omega
  have checked := canonicalIndex_bounds bounds
  rw [show canonicalIndex { idx with version := 2 } = canonicalIndex idx from rfl] at checked
  rw [readTrailerAndIndex_tail place present small binary whole, decoded, mapError_ok,
    ok_bind, checked, mapError_ok, ok_bind]
  rfl

/-- **Write-then-read round trip of the container tail.**  The tail that
`writeIndexAndTrailer` emits after `before` is read back as the same index in
Format v2, with lower-case digests and the default compression name filled in. -/
theorem readTrailerAndIndex_writeIndexAndTrailer [CaseTable] (H : Sha256) (idx : Index) (o : Int64)
    (before enc : Bytes) (version : idx.version = 0 ∨ idx.version = 2)
    (dictionaryDigest : idx.dictionarySHA256 = [] ∨ validateChecksum idx.dictionarySHA256 = true)
    (nonneg : 0 ≤ o.toInt)
    (bounds : validateBounds { idx with version := 2 } o = .ok ())
    (encodes : marshalBinaryIndex { idx with version := 2 } = .ok enc)
    (small : enc.length ≤ maxIndexSize) (place : (before.length : Int) = o.toInt) :
    ∃ tail, writeIndexAndTrailer H buffer [] idx o =
        .ok (tail, { idx with version := 2 }, tail.length) ∧
      ∀ totalSize : Int64, totalSize.toInt = (before ++ tail).length →
        readTrailerAndIndex H (before ++ tail) totalSize = .ok
          { idx with
            version := 2
            dictionarySHA256 := lowerHex idx.dictionarySHA256
            variants := idx.variants.map fun v =>
              { v with
                sha256 := lowerHex v.sha256
                compression := if v.compression = [] then lit "zstd" else v.compression } } := by
  obtain ⟨fits, enc_eq⟩ := marshalBinaryIndex_ok encodes
  have valid : validateChecksum idx.dictionarySHA256 = true := by
    rcases dictionaryDigest with empty | valid
    · rw [empty]; rfl
    · exact valid
  refine ⟨enc ++ encodeTrailer H o enc, ?_, ?_⟩
  · rw [writeIndexAndTrailer_buffer version nonneg encodes small, List.length_append,
      encodeTrailer_length]
    rfl
  · intro totalSize whole
    rw [← List.append_assoc] at whole ⊢
    rw [readTrailerAndIndex_encoded bounds encodes small place whole,
      canonicalIndex_lowerHex valid fits.variants]

section

local instance : CaseTable := CaseTable.ascii

/-- A stub of one byte, a dictionary of three, and two variants: seven bytes in a frame of
one byte, with their digest in capitals, and the bytes of `hello` as they are. -/
def sampleIndex : Index :=
  { version := 0, appName := lit "app", targetOS := lit "linux", targetArch := lit "amd64",
    createdUnix := -1, dictionaryOffset := 1, dictionarySize := 3,
    dictionarySHA256 := lit "3774fed6f81e6d77fb664109f8ac3e35088e89722c6c8747166afe631cfcf43a",
    dictionaryID := 77,
    variants := [
      ⟨lit "v1", 4, 1, 7, lit "32BBE378A25091502B2BAF9F7258C19444E7A43EE4593B08030ACD790BD66E6A", []⟩,
      ⟨lit "v3", 5, 5, 5, lit "2cf24dba5fb0a30e26e83b2ac5b9e29e1b161e5c1fa7425e73043362938b9824",
        lit "none"⟩] }

/-- What lies before the index of the sample. -/
def sampleBody : Bytes := [0, 5, 6, 7, 9] ++ lit "hello"

theorem readTrailerAndIndex_sample :
    ∃ tail, writeIndexAndTrailer sha256 buffer [] sampleIndex 10 =
        .ok (tail, { sampleIndex with version := 2 }, tail.length) ∧
      ∀ totalSize : Int64, totalSize.toInt = (sampleBody ++ tail).length →
        readTrailerAndIndex sha256 (sampleBody ++ tail) totalSize = .ok
          { sampleIndex with
            version := 2
            dictionarySHA256 := lowerHex sampleIndex.dictionarySHA256
            variants := sampleIndex.variants.map fun v =>
              { v with
                sha256 := lowerHex v.sha256
                compression := if v.compression = [] then lit "zstd" else v.compression } } :=
  readTrailerAndIndex_writeIndexAndTrailer sha256 sampleIndex 10 sampleBody
    (encodeIndex sampleIndex) (.inl rfl) (.inr (by decide +kernel)) (by decide +kernel)
    (Eval.eq_ok_of_toOption (by decide +kernel)) (Eval.eq_ok_of_toOption (by decide +kernel))
    (by decide +kernel) (by decide +kernel)

end

end Microfat.Format
