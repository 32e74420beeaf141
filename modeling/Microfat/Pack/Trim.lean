/-
# Microfat.Pack.Trim — trimming a container to one variant

`trimBinary` copies the stub, the dictionary and one frame out of a container and
writes a new index behind them.  The stub ends where the dictionary, or else the
first frame, starts.

* `unmarshalBinaryIndex_trimmed`: what the decoder returns is already in the form
  a second encoding and decoding would give it;
* `trimmed_bounds`: the index of the trimmed file passes the validator, because the
  regions of the source are ordered and the copied ones only move down;
* `trimBinary_eq`: on an accepted file the copies are exactly those regions;
* `trimBinary_preserves`: the trimmed file is accepted, holds the chosen variant with
  the same frame, stub and dictionary, and trimming it again changes nothing;
* `trimBinary_selects`: trimmed to the level a host selected, it selects that level again.
-/
import Microfat.Launcher.Extract
import Microfat.Format.Runnable

namespace Microfat.Pack

open Theory Format Codec Launcher
open Eval (bind_ok eq_ok_of_toOption ok_bind)

set_option autoImplicit false

/-- The buffer of `io.Copy`. -/
def copyBufferSize : Nat := 32 * 1024

section

variable [CaseTable] (H : Sha256) {σ : Type} (w : ByteWriter σ Err)

/-- `io.Copy(out, io.NewSectionReader(r, offset, n))`, with the error dressed. -/
def copySection (message : String) (out : σ) (file : Bytes) (offset n : Int64) : Eval Err σ :=
  let source := sectionReader file offset n
  let copied := copy shortWrite w out
    ⟨pieces copyBufferSize source.bytes.length source.bytes, source.fault⟩
  match copied.2 with
  | none => .ok copied.1
  | some err => Eval.fail (.wrap [.text message, .cause] [err])

/-- `TrimBinary` for a writer `w`; `now` is the clock it reads for the new index. -/
def trimBinary (out : σ) (file : Bytes) (totalSize : Int64) (targetLevel : Bytes) (now : Int64) :
    Eval Err (σ × Index) := do
  let idx ← Eval.mapError (fun err => .wrap [.text "reading index: ", .cause] [err])
    (readTrailerAndIndex H file totalSize)
  match idx.variants, idx.findVariant targetLevel with
  | [], _ => Eval.fail (.new "binary index contains no variants")
  | _ :: _, none => Eval.fail (.errorf [.text "variant level ", .quoted targetLevel,
      .text " not found in binary manifest"] [] [])
  | first :: _, some selected => do
      let stubSize := if 0 < idx.dictionarySize.toInt then idx.dictionaryOffset else first.offset
      Eval.guard (stubSize.toInt ≤ 0 || totalSize.toInt < stubSize.toInt)
        (.new "invalid stub offset in binary index")
      let out ← copySection w "copying stub binary: " out file 0 stubSize
      let currentOffset := stubSize
      let (out, newIdx, currentOffset) ←
        if 0 < idx.dictionarySize.toInt then do
          let out ← copySection w "copying dictionary frame: " out file idx.dictionaryOffset
            idx.dictionarySize
          let dictOffset := currentOffset
          let currentOffset ← add64 currentOffset idx.dictionarySize
          let out ← copySection w "copying variant frame: " out file selected.offset
            selected.compressedSize
          let variantOffset := currentOffset
          let currentOffset ← add64 currentOffset selected.compressedSize
          let newIdx : Index :=
            { version := idx.version, appName := idx.appName, targetOS := idx.targetOS,
              targetArch := idx.targetArch, createdUnix := now, dictionaryOffset := dictOffset,
              dictionarySize := idx.dictionarySize, dictionarySHA256 := idx.dictionarySHA256,
              dictionaryID := idx.dictionaryID,
              variants := [{ selected with offset := variantOffset }] }
          Except.ok (out, newIdx, currentOffset)
        else do
          let out ← copySection w "copying variant frame: " out file selected.offset
            selected.compressedSize
          let variantOffset := currentOffset
          let currentOffset ← add64 currentOffset selected.compressedSize
          let newIdx : Index :=
            { version := idx.version, appName := idx.appName, targetOS := idx.targetOS,
              targetArch := idx.targetArch, createdUnix := now, dictionaryOffset := 0,
              dictionarySize := 0, dictionarySHA256 := [], dictionaryID := 0,
              variants := [{ selected with offset := variantOffset }] }
          Except.ok (out, newIdx, currentOffset)
      let (out, newIdx, _) ← Eval.mapError
        (fun err => .wrap [.text "writing trimmed index and trailer: ", .cause] [err])
        (writeIndexAndTrailer H w out newIdx currentOffset)
      return (out, newIdx)

end

/-! ## Decoded indexes are canonical -/

section

variable [CaseTable]

omit [CaseTable] in
theorem lowerByte_idem (b : UInt8) : lowerByte (lowerByte b) = lowerByte b := by
  rw [lowerByte, lowerByte]
  split
  · rename_i upper
    rw [if_neg]
    simp only [between, Bool.and_eq_true, decide_eq_true_eq] at upper ⊢
    rw [UInt8.toNat_add]
    have : (32 : UInt8).toNat = 32 := rfl
    omega
  · rfl

theorem toLower_digest_idem {s : Bytes} (valid : validateChecksum s = true) :
    toLower (toLower s) = toLower s := by
  by_cases empty : s = []
  · rw [empty]
    rfl
  rw [toLower_ascii (validateChecksum_ascii (toLower_digest empty valid).2),
    toLower_ascii (validateChecksum_ascii valid), List.map_map]
  exact List.map_congr_left fun b _ => lowerByte_idem b

theorem decodeVariants_canonical {data : Bytes} (count : Nat) : ∀ {i offset : Nat}
    {vs : List VariantEntry}, decodeVariants data count i offset = .ok vs →
      ∀ v ∈ vs, canonicalVariant v = v := by
  induction count with
  | zero =>
    intro i offset vs h
    cases h
    simp
  | succ count ih =>
    intro i offset vs h
    obtain ⟨⟨entry, next⟩, head, h⟩ := bind_ok h
    obtain ⟨rest, tail, h⟩ := bind_ok h
    cases h
    refine List.forall_mem_cons.mpr ⟨?_, ih tail⟩
    obtain ⟨level, -, head⟩ := bind_ok head
    obtain ⟨_, -, head⟩ := bind_ok head
    obtain ⟨_, -, head⟩ := bind_ok head
    obtain ⟨_, -, head⟩ := bind_ok head
    obtain ⟨_, -, head⟩ := bind_ok head
    obtain ⟨_, -, head⟩ := bind_ok head
    obtain ⟨⟨sha, _⟩, -, head⟩ := bind_ok head
    obtain ⟨_, digest, head⟩ := bind_ok head
    obtain ⟨⟨comp, _⟩, -, head⟩ := bind_ok head
    cases head
    simp only [Eval.guard_eq_ok, Bool.or_eq_false_iff, Bool.not_eq_false'] at digest
    have named : (if comp = [] then defaultCompressionAlgorithm else comp) ≠ [] := by
      split
      · decide
      · assumption
    rw [canonicalVariant, compressionName]
    dsimp only
    rw [toLower_digest_idem digest.2, if_neg named]

theorem unmarshalBinaryIndex_trimmed {data : Bytes} {idx : Index}
    (decoded : unmarshalBinaryIndex data = .ok idx) :
    (∀ v ∈ idx.variants, canonicalVariant v = v) ∧
      (0 < idx.dictionarySize.toInt → toLower idx.dictionarySHA256 = idx.dictionarySHA256) := by
  obtain ⟨header, -, h⟩ := bind_ok decoded
  obtain ⟨⟨dictSHA, _⟩, -, h⟩ := bind_ok h
  obtain ⟨_, digest, h⟩ := bind_ok h
  obtain ⟨_, -, h⟩ := bind_ok h
  obtain ⟨_, -, h⟩ := bind_ok h
  obtain ⟨_, -, h⟩ := bind_ok h
  obtain ⟨_, -, h⟩ := bind_ok h
  obtain ⟨_, -, h⟩ := bind_ok h
  obtain ⟨variants, listed, h⟩ := bind_ok h
  cases h
  refine ⟨decodeVariants_canonical _ listed, fun positive => ?_⟩
  simp only [Eval.guard_eq_ok, Bool.and_eq_false_iff, Bool.or_eq_false_iff, decide_eq_false_iff_not,
    Bool.not_eq_false'] at digest
  exact toLower_digest_idem (digest.resolve_left (not_not_intro positive)).2

end

/-! ## The trimmed container -/

/-- The bytes of a section of the file. -/
def fileSection (file : Bytes) (offset n : Int64) : Bytes :=
  (file.drop offset.toInt.toNat).take n.toInt.toNat

/-- The end of the stub: the start of the dictionary, or else of the first frame. -/
def stubEnd (idx : Index) : Int64 :=
  if 0 < idx.dictionarySize.toInt then idx.dictionaryOffset
  else (idx.variants.head?.map (·.offset)).getD 0

/-- The bytes of the dictionary, none when there is no dictionary. -/
def dictionaryBytes (file : Bytes) (idx : Index) : Bytes :=
  if 0 < idx.dictionarySize.toInt then fileSection file idx.dictionaryOffset idx.dictionarySize else []

/-- The end of the dictionary in the trimmed file. -/
def trimmedOffset (idx : Index) : Int64 :=
  if 0 < idx.dictionarySize.toInt then Int64.ofInt ((stubEnd idx).toInt + idx.dictionarySize.toInt)
  else stubEnd idx

def trimmedEnd (idx : Index) (v : VariantEntry) : Int64 :=
  Int64.ofInt ((trimmedOffset idx).toInt + v.compressedSize.toInt)

def trimmedBody (file : Bytes) (idx : Index) (v : VariantEntry) : Bytes :=
  fileSection file 0 (stubEnd idx) ++ dictionaryBytes file idx ++
    fileSection file v.offset v.compressedSize

/-- The index `trimBinary` writes. -/
def trimmedIndex (idx : Index) (v : VariantEntry) (now : Int64) : Index :=
  if 0 < idx.dictionarySize.toInt then
    { idx with
      createdUnix := now, dictionaryOffset := stubEnd idx
      variants := [{ v with offset := trimmedOffset idx }] }
  else
    { version := idx.version, appName := idx.appName, targetOS := idx.targetOS,
      targetArch := idx.targetArch, createdUnix := now, dictionaryOffset := 0, dictionarySize := 0,
      dictionarySHA256 := [], dictionaryID := 0, variants := [{ v with offset := stubEnd idx }] }

section

variable [CaseTable] {H : Sha256} {file : Bytes} {idx : Index} {o : Int64} {v : VariantEntry}

/-- Where the parts of an accepted container lie that a trim copies. -/
structure Parts (idx : Index) (o : Int64) (v : VariantEntry) : Prop where
  stub : 0 ≤ (stubEnd idx).toInt
  offset : (trimmedOffset idx).toInt =
    (stubEnd idx).toInt + (if 0 < idx.dictionarySize.toInt then idx.dictionarySize.toInt else 0)
  before : (trimmedOffset idx).toInt ≤ v.offset.toInt
  frame : 0 < v.compressedSize.toInt
  stop : (trimmedEnd idx v).toInt = (trimmedOffset idx).toInt + v.compressedSize.toInt
  inside : v.offset.toInt + v.compressedSize.toInt ≤ o.toInt

section

variable (bounds : validateBounds idx o = .ok ()) (mem : v ∈ idx.variants)

include bounds mem

theorem parts_of_bounds : Parts idx o v := by
  have laid := validateBounds_laidOut bounds
  have frameIn : v.region ∈ idx.regions := List.mem_append_right _ (List.mem_map_of_mem mem)
  obtain ⟨frameLow, framePos, frameHigh⟩ := laid.within _ frameIn
  simp only [VariantEntry.region] at frameLow framePos frameHigh
  have fits : ∀ n : Int, 0 ≤ n → n ≤ o.toInt → (Int64.ofInt n).toInt = n := by
    intro n low high
    have := o.toInt_lt
    exact toInt_ofInt64 ⟨by omega, by omega⟩
  by_cases dictionary : 0 < idx.dictionarySize.toInt
  · have dictIn : ∀ r ∈ idx.variants.map VariantEntry.region,
        idx.dictionaryOffset.toInt + idx.dictionarySize.toInt ≤ r.start := by
      have ordered := laid.ordered
      rw [Index.regions, Index.dictionaryRegions, if_pos dictionary, List.singleton_append,
        List.pairwise_cons] at ordered
      exact ordered.1
    have after := dictIn _ (List.mem_map_of_mem mem)
    obtain ⟨dictLow, -, -⟩ := laid.within
      ⟨idx.dictionaryOffset.toInt, idx.dictionaryOffset.toInt + idx.dictionarySize.toInt⟩
      (by rw [Index.regions, Index.dictionaryRegions, if_pos dictionary]; simp)
    simp only [VariantEntry.region] at after dictLow
    have offset : (trimmedOffset idx).toInt =
        idx.dictionaryOffset.toInt + idx.dictionarySize.toInt := by
      rw [trimmedOffset, stubEnd, if_pos dictionary, if_pos dictionary]
      exact fits _ (by omega) (by omega)
    have stub : stubEnd idx = idx.dictionaryOffset := by rw [stubEnd, if_pos dictionary]
    refine ⟨by rw [stub]; exact dictLow, by rw [offset, stub, if_pos dictionary], by omega, by omega,
      ?_, frameHigh⟩
    exact fits _ (by omega) (by omega)
  · obtain ⟨first, rest, list⟩ := List.exists_cons_of_ne_nil (List.ne_nil_of_mem mem)
    have stub : stubEnd idx = first.offset := by
      rw [stubEnd, if_neg dictionary, list]
      rfl
    have ordered := laid.ordered
    rw [Index.regions, Index.dictionaryRegions, if_neg dictionary, List.nil_append, list,
      List.map_cons, List.pairwise_cons] at ordered
    have firstIn : first.region ∈ idx.regions :=
      List.mem_append_right _ (List.mem_map_of_mem (list ▸ List.mem_cons_self))
    obtain ⟨firstLow, firstPos, -⟩ := laid.within _ firstIn
    have before : first.offset.toInt ≤ v.offset.toInt := by
      rw [list] at mem
      rcases List.mem_cons.mp mem with rfl | later
      · exact Int.le_refl _
      · have := ordered.1 _ (List.mem_map_of_mem later)
        simp only [VariantEntry.region] at this firstPos
        omega
    simp only [VariantEntry.region] at firstLow
    have offset : (trimmedOffset idx).toInt = first.offset.toInt := by
      rw [trimmedOffset, if_neg dictionary, stub]
    refine ⟨by rw [stub]; exact firstLow, by rw [offset, stub, if_neg dictionary, Int.add_zero],
      by omega, by omega, ?_, frameHigh⟩
    exact fits _ (by omega) (by omega)

/-- The index of the trimmed file passes the validator. -/
theorem trimmed_bounds (now : Int64) :
    validateBounds (trimmedIndex idx v now) (trimmedEnd idx v) = .ok () := by
  obtain ⟨lastEnd, ok⟩ := validateBounds_ok bounds
  obtain ⟨_, _, _, _, checked⟩ := validateVariantsFrom_mem ok.variants v mem
  have parts := parts_of_bounds bounds mem
  obtain ⟨stub, offset, -, frame, stop, -⟩ := parts
  have nonneg : 0 ≤ (trimmedOffset idx).toInt := by split at offset <;> omega
  have single : ∀ (idx' : Index) (low : Int64), idx'.version = formatVersion2 →
      idx'.targetArch = idx.targetArch → idx'.variants = [{ v with offset := trimmedOffset idx }] →
      DictionaryOk idx' (trimmedEnd idx v) low → low.toInt ≤ (trimmedOffset idx).toInt →
      validateBounds idx' (trimmedEnd idx v) = .ok () := by
    intro idx' low version arch variants dictionary below
    have entry : VariantOk idx' (trimmedEnd idx v) 0 [] low { v with offset := trimmedOffset idx }
        (trimmedEnd idx v) :=
      ⟨checked.named, by rw [arch]; exact checked.tier, by simp, nonneg, frame, checked.uncompressed,
        checked.payload, fun _ => below, checked.digest, stop, Int.le_refl _⟩
    have loop : validateVariantsFrom idx' (trimmedEnd idx v) 0 [] low idx'.variants = .ok () := by
      rw [variants, validateVariantsFrom, entry.validates, ok_bind]
      rfl
    have all : BoundsOk idx' (trimmedEnd idx v) low :=
      ⟨version, by omega, by rw [variants]; simp, by rw [arch]; exact ok.arch, dictionary, loop⟩
    exact all.validates
  by_cases dictionary : 0 < idx.dictionarySize.toInt
  · rw [if_pos dictionary] at offset
    rw [trimmedIndex, if_pos dictionary]
    refine single _ (trimmedOffset idx) ok.version rfl rfl ?_ (Int.le_refl _)
    cases ok.dictionary with
    | none empty => omega
    | some _ positive small _ present valid _ _ =>
      exact .some _ positive small stub present valid offset (by omega)
  · have same : stubEnd idx = trimmedOffset idx := by rw [trimmedOffset, if_neg dictionary]
    have zero : (0 : Int64).toInt = 0 := by decide
    rw [trimmedIndex, if_neg dictionary, same]
    exact single _ 0 ok.version rfl rfl (.none zero) (by rw [zero]; exact nonneg)

end

/-- The index of the trimmed file needs no further normalisation. -/
theorem trimmedIndex_canonical {data : Bytes} (decoded : unmarshalBinaryIndex data = .ok idx)
    (version : idx.version = formatVersion2) (mem : v ∈ idx.variants) (now : Int64) :
    canonicalIndex (trimmedIndex idx v now) = trimmedIndex idx v now := by
  obtain ⟨variants, digest⟩ := unmarshalBinaryIndex_trimmed decoded
  have entry : ∀ offset, canonicalVariant { v with offset := offset } = { v with offset := offset } := by
    intro offset
    have same := variants v mem
    simp only [canonicalVariant, compressionName] at same ⊢
    have sha : toLower v.sha256 = v.sha256 := congrArg VariantEntry.sha256 same
    have name : (if v.compression = [] then defaultCompressionAlgorithm else v.compression) =
        v.compression := congrArg VariantEntry.compression same
    rw [sha, name]
  by_cases dictionary : 0 < idx.dictionarySize.toInt
  · rw [trimmedIndex, if_pos dictionary, canonicalIndex]
    dsimp only
    rw [List.map_singleton, entry, digest dictionary, version]
  · rw [trimmedIndex, if_neg dictionary, canonicalIndex]
    dsimp only
    rw [List.map_singleton, entry, version]
    rfl

/-! ## The copies -/

omit [CaseTable] in
theorem copySection_buffer (message : String) (out file : Bytes) {offset : Int64} (n : Int64)
    (nonneg : 0 ≤ offset.toInt) :
    copySection buffer message out file offset n = .ok (out ++ fileSection file offset n) := by
  have source : sectionReader file offset n = ⟨fileSection file offset n, none⟩ := by
    rw [sectionReader, if_neg]
    · rfl
    · simp only [Bool.and_eq_true, decide_eq_true_eq, not_and]
      omega
  rw [copySection, source]
  dsimp only
  rw [copy_buffer, pieces_flatten (by decide) (le_refl _)]

/-- **On an accepted file the trim writes the copied regions**, then the index of the
trimmed file. -/
theorem trimBinary_eq (now : Int64) {totalSize : Int64} {level : Bytes}
    (accepted : readTrailerAndIndex H file totalSize = .ok idx) (bounds : validateBounds idx o = .ok ())
    (found : idx.findVariant level = some v) (positive : 0 < (stubEnd idx).toInt)
    (inside : (stubEnd idx).toInt ≤ totalSize.toInt) :
    trimBinary H buffer [] file totalSize level now = (do
      let (out, newIdx, _) ← Eval.mapError
        (fun err => .wrap [.text "writing trimmed index and trailer: ", .cause] [err])
        (writeIndexAndTrailer H buffer (trimmedBody file idx v) (trimmedIndex idx v now)
          (trimmedEnd idx v))
      return (out, newIdx)) := by
  have mem : v ∈ idx.variants := List.mem_of_find?_eq_some found
  have parts := parts_of_bounds bounds mem
  obtain ⟨first, rest, list⟩ := List.exists_cons_of_ne_nil (List.ne_nil_of_mem mem)
  have stub : (if 0 < idx.dictionarySize.toInt then idx.dictionaryOffset else first.offset) =
      stubEnd idx := by
    rw [stubEnd, list]
    rfl
  have zero : (0 : Int64).toInt = 0 := by decide
  have stop : (add64 (trimmedOffset idx) v.compressedSize : Eval Err Int64) =
      .ok (trimmedEnd idx v) := by
    have offset := parts.offset
    have low := parts.stub
    have frame := parts.frame
    obtain ⟨c, sum, value⟩ := add64_inside (E := Err) (a := trimmedOffset idx) (b := v.compressedSize)
      (z := o) (by split at offset <;> omega) (by omega)
      (by have := parts.before; have := parts.inside; omega)
    rw [sum, Int64.toInt_inj.mp (value.trans parts.stop.symm)]
  have frameLow : 0 ≤ v.offset.toInt := by
    have offset := parts.offset
    have low := parts.stub
    have before := parts.before
    split at offset <;> omega
  rw [trimBinary, accepted, Eval.mapError_ok, ok_bind, list, found]
  dsimp only
  rw [stub, Eval.guard_pass (by simp; omega), ok_bind,
    copySection_buffer _ _ _ _ (by rw [zero]), ok_bind]
  by_cases dictionary : 0 < idx.dictionarySize.toInt
  · have dictStart : stubEnd idx = idx.dictionaryOffset := by rw [stubEnd, if_pos dictionary]
    have offset := parts.offset
    rw [if_pos dictionary] at offset
    have next : (add64 (stubEnd idx) idx.dictionarySize : Eval Err Int64) = .ok (trimmedOffset idx) := by
      obtain ⟨c, sum, value⟩ := add64_inside (E := Err) (a := stubEnd idx) (b := idx.dictionarySize)
        (z := o) (by omega) (by omega)
        (by have := parts.before; have := parts.inside; have := parts.frame; omega)
      rw [sum, Int64.toInt_inj.mp (value.trans offset.symm)]
    rw [if_pos dictionary, copySection_buffer _ _ _ _ (by rw [← dictStart]; omega), ok_bind, next,
      ok_bind, copySection_buffer _ _ _ _ frameLow, ok_bind, stop, ok_bind, ok_bind]
    dsimp only
    rw [trimmedBody, dictionaryBytes, if_pos dictionary, trimmedIndex, if_pos dictionary,
      List.nil_append]
  · have start : stubEnd idx = trimmedOffset idx := by rw [trimmedOffset, if_neg dictionary]
    rw [if_neg dictionary, copySection_buffer _ _ _ _ frameLow, ok_bind, start, stop, ok_bind,
      ok_bind]
    dsimp only
    rw [trimmedBody, dictionaryBytes, if_neg dictionary, trimmedIndex, if_neg dictionary,
      List.nil_append, List.append_nil, start]

/-- A trim that succeeded found a stub inside the file. -/
theorem trimBinary_stub {totalSize now : Int64} {level : Bytes} {res : Bytes × Index}
    (accepted : readTrailerAndIndex H file totalSize = .ok idx)
    (found : idx.findVariant level = some v)
    (trimmed : trimBinary H buffer [] file totalSize level now = .ok res) :
    0 < (stubEnd idx).toInt ∧ (stubEnd idx).toInt ≤ totalSize.toInt := by
  have mem : v ∈ idx.variants := List.mem_of_find?_eq_some found
  obtain ⟨first, rest, list⟩ := List.exists_cons_of_ne_nil (List.ne_nil_of_mem mem)
  have stub : (if 0 < idx.dictionarySize.toInt then idx.dictionaryOffset else first.offset) =
      stubEnd idx := by
    rw [stubEnd, list]
    rfl
  rw [trimBinary, accepted, Eval.mapError_ok, ok_bind, list, found] at trimmed
  dsimp only at trimmed
  obtain ⟨_, checked, -⟩ := bind_ok trimmed
  rw [stub] at checked
  simp only [Eval.guard_eq_ok, Bool.or_eq_false_iff, decide_eq_false_iff_not, Int.not_le,
    Int.not_lt] at checked
  exact checked

/-! ## What is kept -/

omit [CaseTable] in
theorem fileSection_length {offset n : Int64} (nonneg : 0 ≤ offset.toInt) (size : 0 ≤ n.toInt)
    (inside : offset.toInt + n.toInt ≤ file.length) :
    ((fileSection file offset n).length : Int) = n.toInt := by
  rw [fileSection, List.length_take, List.length_drop]
  omega

omit [CaseTable] in
theorem fileSection_append (before piece after : Bytes) {offset n : Int64}
    (place : offset.toInt = before.length) (size : n.toInt = piece.length) :
    fileSection (before ++ piece ++ after) offset n = piece := by
  rw [fileSection, place, size, Int.toNat_natCast, Int.toNat_natCast, List.append_assoc,
    List.drop_left, List.take_left]

/-- The parts of the body have the sizes the index says. -/
structure BodySizes (file : Bytes) (idx : Index) (v : VariantEntry) : Prop where
  stub : (stubEnd idx).toInt = (fileSection file 0 (stubEnd idx)).length
  dictionary : (trimmedOffset idx).toInt =
    (fileSection file 0 (stubEnd idx) ++ dictionaryBytes file idx).length
  dictionaryBytes : 0 < idx.dictionarySize.toInt → idx.dictionarySize.toInt =
    (fileSection file idx.dictionaryOffset idx.dictionarySize).length
  frame : v.compressedSize.toInt = (fileSection file v.offset v.compressedSize).length
  body : ((trimmedBody file idx v).length : Int) = (trimmedEnd idx v).toInt

omit [CaseTable] in
theorem body_sizes (parts : Parts idx o v) (long : o.toInt ≤ file.length) : BodySizes file idx v := by
  obtain ⟨stub, offset, before, frame, stop, inside⟩ := parts
  have zero : (0 : Int64).toInt = 0 := by decide
  have nonneg : (stubEnd idx).toInt ≤ (trimmedOffset idx).toInt := by split at offset <;> omega
  have stubLen := @fileSection_length file 0 (stubEnd idx) (by rw [zero]) stub (by omega)
  have frameLen := @fileSection_length file v.offset v.compressedSize (by omega) (by omega) (by omega)
  have sectionLen : 0 < idx.dictionarySize.toInt →
      ((fileSection file idx.dictionaryOffset idx.dictionarySize).length : Int) =
        idx.dictionarySize.toInt := by
    intro dictionary
    have start : stubEnd idx = idx.dictionaryOffset := by rw [stubEnd, if_pos dictionary]
    rw [if_pos dictionary] at offset
    rw [← start]
    exact fileSection_length stub (by omega) (by omega)
  have dictLen : ((dictionaryBytes file idx).length : Int) =
      if 0 < idx.dictionarySize.toInt then idx.dictionarySize.toInt else 0 := by
    by_cases dictionary : 0 < idx.dictionarySize.toInt
    · rw [dictionaryBytes, if_pos dictionary, if_pos dictionary, sectionLen dictionary]
    · rw [dictionaryBytes, if_neg dictionary, if_neg dictionary]
      rfl
  refine ⟨stubLen.symm, ?_, fun dictionary => (sectionLen dictionary).symm, frameLen.symm, ?_⟩
  · rw [List.length_append]
    omega
  · rw [trimmedBody, List.length_append, List.length_append]
    omega

/-- What a trimmed container keeps of its source. -/
structure TrimOf (file : Bytes) (idx : Index) (v : VariantEntry) (out : Bytes) (idx' : Index) : Prop where
  variant : ∃ v', idx'.variants = [v'] ∧ v'.level = v.level ∧ v'.sha256 = v.sha256 ∧
    v'.uncompressedSize = v.uncompressedSize ∧ v'.compression = v.compression ∧
    v'.compressedSize = v.compressedSize ∧
    fileSection out v'.offset v'.compressedSize = fileSection file v.offset v.compressedSize
  stub : stubEnd idx' = stubEnd idx ∧
    fileSection out 0 (stubEnd idx') = fileSection file 0 (stubEnd idx)
  dictionary : 0 < idx.dictionarySize.toInt →
    idx'.dictionarySize = idx.dictionarySize ∧ idx'.dictionarySHA256 = idx.dictionarySHA256 ∧
    idx'.dictionaryID = idx.dictionaryID ∧
    fileSection out idx'.dictionaryOffset idx'.dictionarySize =
      fileSection file idx.dictionaryOffset idx.dictionarySize
  noDictionary : ¬ 0 < idx.dictionarySize.toInt →
    idx'.dictionarySize = 0 ∧ idx'.dictionarySHA256 = [] ∧ idx'.dictionaryID = 0

section

variable (idx : Index) (v : VariantEntry) (now : Int64)

omit [CaseTable] in
/-- The entry of the trimmed index. -/
theorem trimmedIndex_variants :
    (trimmedIndex idx v now).variants = [{ v with offset := trimmedOffset idx }] := by
  by_cases dictionary : 0 < idx.dictionarySize.toInt
  · rw [trimmedIndex, if_pos dictionary]
  · rw [trimmedIndex, if_neg dictionary, trimmedOffset, if_neg dictionary]

omit [CaseTable] in
theorem trimmedIndex_dictionary :
    (0 < (trimmedIndex idx v now).dictionarySize.toInt ↔ 0 < idx.dictionarySize.toInt) ∧
      stubEnd (trimmedIndex idx v now) = stubEnd idx ∧
      trimmedOffset (trimmedIndex idx v now) = trimmedOffset idx := by
  by_cases dictionary : 0 < idx.dictionarySize.toInt
  · have same : (trimmedIndex idx v now).dictionarySize = idx.dictionarySize ∧
        (trimmedIndex idx v now).dictionaryOffset = stubEnd idx := by
      rw [trimmedIndex, if_pos dictionary]
      exact ⟨rfl, rfl⟩
    have stub : stubEnd (trimmedIndex idx v now) = stubEnd idx := by
      rw [stubEnd, same.1, if_pos dictionary, same.2]
    rw [trimmedOffset, trimmedOffset, stub, same.1]
    exact ⟨Iff.rfl, rfl, rfl⟩
  · have none : ¬ 0 < (trimmedIndex idx v now).dictionarySize.toInt := by
      rw [trimmedIndex, if_neg dictionary]
      exact Int.lt_irrefl 0
    have stub : stubEnd (trimmedIndex idx v now) = stubEnd idx := by
      rw [stubEnd, if_neg none, trimmedIndex, if_neg dictionary]
      rfl
    rw [trimmedOffset, trimmedOffset, if_neg none, if_neg dictionary, stub]
    exact ⟨by simp [none, dictionary], rfl, rfl⟩

end

omit [CaseTable] in
/-- The copied regions are found again behind the stub of the trimmed file. -/
theorem trim_sections (sizes : BodySizes file idx v) (tail : Bytes) (now : Int64) :
    TrimOf file idx v (trimmedBody file idx v ++ tail) (trimmedIndex idx v now) := by
  obtain ⟨-, stub, -⟩ := trimmedIndex_dictionary idx v now
  have zero : (0 : Int64).toInt = 0 := by decide
  refine ⟨⟨_, trimmedIndex_variants idx v now, rfl, rfl, rfl, rfl, rfl, ?_⟩, ⟨stub, ?_⟩, ?_, ?_⟩
  · exact fileSection_append _ _ tail sizes.dictionary sizes.frame
  · rw [stub, trimmedBody, List.append_assoc, List.append_assoc]
    exact fileSection_append [] _ _ (by rw [zero]; rfl) sizes.stub
  · intro dictionary
    have dictBytes : dictionaryBytes file idx =
        fileSection file idx.dictionaryOffset idx.dictionarySize := by
      rw [dictionaryBytes, if_pos dictionary]
    rw [trimmedIndex, if_pos dictionary]
    refine ⟨rfl, rfl, rfl, ?_⟩
    rw [trimmedBody, List.append_assoc, dictBytes]
    exact fileSection_append _ _ _ sizes.stub (sizes.dictionaryBytes dictionary)
  · intro dictionary
    rw [trimmedIndex, if_neg dictionary]
    exact ⟨rfl, rfl, rfl⟩

omit [CaseTable] in
theorem with_version (version : idx.version = formatVersion2) :
    { idx with version := formatVersion2 } = idx := by
  rw [← version]

omit [CaseTable] in
/-- Trimming the trimmed container copies the same bytes and writes the same index. -/
theorem trim_again {out : Bytes} (now : Int64)
    (kept : TrimOf file idx v out (trimmedIndex idx v now)) :
    let v' : VariantEntry := { v with offset := trimmedOffset idx }
    trimmedBody out (trimmedIndex idx v now) v' = trimmedBody file idx v ∧
      trimmedIndex (trimmedIndex idx v now) v' now = trimmedIndex idx v now ∧
      trimmedEnd (trimmedIndex idx v now) v' = trimmedEnd idx v := by
  obtain ⟨present, stub, offset⟩ := trimmedIndex_dictionary idx v now
  obtain ⟨⟨v', single, -, -, -, -, -, frame⟩, ⟨-, stubBytes⟩, dictionary, -⟩ := kept
  obtain rfl : { v with offset := trimmedOffset idx } = v' := by
    rw [trimmedIndex_variants, List.singleton_inj] at single
    exact single
  refine ⟨?_, ?_, by rw [trimmedEnd, trimmedEnd, offset]⟩
  · have dictSame : dictionaryBytes out (trimmedIndex idx v now) = dictionaryBytes file idx := by
      rw [dictionaryBytes, dictionaryBytes]
      by_cases set : 0 < idx.dictionarySize.toInt
      · rw [if_pos (present.mpr set), if_pos set, (dictionary set).2.2.2]
      · rw [if_neg (fun h => set (present.mp h)), if_neg set]
    rw [trimmedBody, trimmedBody, stubBytes, dictSame, frame]
  · by_cases set : 0 < idx.dictionarySize.toInt
    · rw [trimmedIndex, if_pos (present.mpr set), stub, offset, trimmedIndex, if_pos set]
    · rw [trimmedIndex, if_neg (fun h => set (present.mp h)), stub, trimmedIndex, if_neg set]

/-- **Trimming preserves meaning.** -/
theorem trimBinary_preserves (H : Sha256) (file : Bytes) (totalSize now : Int64) (level : Bytes)
    (idx : Index) (v : VariantEntry) (out : Bytes) (newIdx : Index)
    (whole : totalSize.toInt = file.length) (accepted : readTrailerAndIndex H file totalSize = .ok idx)
    (found : idx.findVariant level = some v)
    (trimmed : trimBinary H buffer [] file totalSize level now = .ok (out, newIdx)) :
    TrimOf file idx v out newIdx ∧
    ∀ size : Int64, size.toInt = out.length →
      readTrailerAndIndex H out size = .ok newIdx ∧
      trimBinary H buffer [] out size level now = .ok (out, newIdx) := by
  obtain ⟨-, before, enc, o, total, part, place, decoded, bounds⟩ :=
    (readTrailerAndIndex_ends H file totalSize).returns accepted
  obtain ⟨lastEnd, ok⟩ := validateBounds_ok bounds
  have mem : v ∈ idx.variants := List.mem_of_find?_eq_some found
  have long : o.toInt ≤ file.length := by
    simp only [List.length_append] at total
    omega
  have parts := parts_of_bounds bounds mem
  have sizes := body_sizes parts long
  obtain ⟨positive, inside⟩ := trimBinary_stub accepted found trimmed
  -- what the writer stored behind the copied regions
  have version : (trimmedIndex idx v now).version = formatVersion2 := by
    by_cases set : 0 < idx.dictionarySize.toInt
    · rw [trimmedIndex, if_pos set]; exact ok.version
    · rw [trimmedIndex, if_neg set]; exact ok.version
  have sameIndex := with_version version
  have eq := trimBinary_eq now accepted bounds found positive inside
  rw [eq] at trimmed
  obtain ⟨⟨out', idx', n⟩, wrote, done⟩ := bind_ok trimmed
  cases done
  have written := Eval.mapError_eq_ok wrote
  have chosen : (if (trimmedIndex idx v now).version = 0 then formatVersion2
      else (trimmedIndex idx v now).version) = formatVersion2 := by rw [version]; rfl
  rw [writeIndexAndTrailer, chosen] at written
  obtain ⟨newEnc, -, -, encodes, small, stored, rfl, -⟩ :=
    (writeIndexAndTrailerWithVersion_iff fun _ _ => ⟨rfl, rfl⟩).mp written
  have layout : out = trimmedBody file idx v ++ newEnc ++ encodeTrailer H (trimmedEnd idx v) newEnc :=
    stored
  have kept : TrimOf file idx v out (trimmedIndex idx v now) := by
    rw [layout, List.append_assoc]
    exact trim_sections sizes _ now
  rw [sameIndex] at encodes trimmed ⊢
  refine ⟨kept, fun size sizeEq => ?_⟩
  have bounds' := trimmed_bounds bounds mem now
  have read : readTrailerAndIndex H out size = .ok (trimmedIndex idx v now) := by
    rw [layout, ← trimmedIndex_canonical decoded ok.version mem now]
    refine readTrailerAndIndex_encoded ?_ ?_ small sizes.body (by rw [sizeEq, layout])
    · exact sameIndex.symm ▸ bounds'
    · exact sameIndex.symm ▸ encodes
  refine ⟨read, ?_⟩
  obtain ⟨-, stub, -⟩ := trimmedIndex_dictionary idx v now
  have named : Microarch.normalize v.level = Microarch.normalize level := by
    simpa using List.find?_some found
  have found' : (trimmedIndex idx v now).findVariant level =
      some { v with offset := trimmedOffset idx } := by
    rw [Index.findVariant, trimmedIndex_variants]
    simp [named]
  have stubInside : (stubEnd (trimmedIndex idx v now)).toInt ≤ size.toInt := by
    have stubLen := sizes.stub
    rw [stub, sizeEq, layout, trimmedBody]
    simp only [List.length_append]
    omega
  obtain ⟨body, index, stop⟩ := trim_again now kept
  rw [trimBinary_eq now read bounds' found' (by rw [stub]; exact positive) stubInside, body,
    index, stop]
  exact trimmed

open Microarch

/-- **A container trimmed to the selected level selects it again**, for the same reason, on
the host that selected it from the source. -/
theorem trimBinary_selects (S : SliceSort) (risk : Bool) {totalSize now : Int64} {host : Info}
    {policy : Policy} {res : PolicyResult} {out : Bytes} {newIdx : Index}
    (known : KnownArch idx.targetArch) (accepted : readTrailerAndIndex H file totalSize = .ok idx)
    (selected : selectVariantForHost S risk idx.targetArch host idx.variantLevels policy = .ok res)
    (trimmed : trimBinary H buffer [] file totalSize res.selectedVariant now = .ok (out, newIdx)) :
    selectVariantForHost S risk newIdx.targetArch host newIdx.variantLevels policy = .ok res := by
  obtain ⟨-, -, -, o, -, -, -, -, bounds⟩ := (readTrailerAndIndex_ends H file totalSize).returns accepted
  obtain ⟨v, mem, named⟩ := List.mem_map.mp (selectVariantForHost_mem selected).1
  obtain ⟨lastEnd, -, laidOut⟩ := validateBounds_variants bounds
  have found : idx.findVariant res.selectedVariant = some v := by
    cases found : idx.findVariant res.selectedVariant with
    | none => exact absurd (by simp [named]) (List.find?_eq_none.mp found v mem)
    | some u =>
      have same : normalize u.level = normalize v.level := by
        simpa [named] using List.find?_some found
      rw [List.inj_on_of_nodup_map laidOut.levels (List.mem_of_find?_eq_some found) mem same]
  obtain ⟨positive, inside⟩ := trimBinary_stub accepted found trimmed
  rw [trimBinary_eq now accepted bounds found positive inside] at trimmed
  obtain ⟨⟨out', idx', n⟩, wrote, done⟩ := bind_ok trimmed
  cases done
  have written := Eval.mapError_eq_ok wrote
  rw [writeIndexAndTrailer] at written
  obtain ⟨-, -, -, -, -, -, rfl, -⟩ :=
    (writeIndexAndTrailerWithVersion_iff fun _ _ => ⟨rfl, rfl⟩).mp written
  have levels : (trimmedIndex idx v now).variantLevels = [res.selectedVariant] := by
    rw [Index.variantLevels, trimmedIndex_variants, ← named]
    rfl
  have arch : (trimmedIndex idx v now).targetArch = idx.targetArch := by
    rw [trimmedIndex]
    split <;> rfl
  change selectVariantForHost S risk (trimmedIndex idx v now).targetArch host
    (trimmedIndex idx v now).variantLevels policy = .ok res
  rw [levels, arch]
  exact select_alone S risk known selected

end

section

local instance trimTable : CaseTable := CaseTable.ascii

/-- The sample container, trimmed to its second variant and read back. -/
theorem trimBinary_preserves_sample : ∃ out newIdx v,
    trimBinary sha256 buffer [] sampleFile 378 (lit "amd64_v3") 7 = .ok (out, newIdx) ∧
      TrimOf sampleFile (canonicalIndex sampleIndex) v out newIdx ∧
      readTrailerAndIndex sha256 out 280 = .ok newIdx := by
  have accepted : readTrailerAndIndex sha256 sampleFile 378 = .ok (canonicalIndex sampleIndex) :=
    eq_ok_of_toOption (by decide +kernel)
  have succeeds : ((trimBinary sha256 buffer [] sampleFile 378 (lit "amd64_v3") 7).toOption.any
      fun res => res.1.length = 280) = true := by decide +kernel
  rw [Option.any_eq_true] at succeeds
  obtain ⟨⟨out, newIdx⟩, returned, long⟩ := succeeds
  have trimmed := eq_ok_of_toOption returned
  have found : ((canonicalIndex sampleIndex).findVariant (lit "amd64_v3")).isSome = true := by
    decide +kernel
  obtain ⟨v, found⟩ := Option.isSome_iff_exists.mp found
  have size : (280 : Int64).toInt = out.length := by
    rw [of_decide_eq_true long]
    rfl
  have preserves := trimBinary_preserves sha256 sampleFile 378 7 (lit "amd64_v3") _ v out newIdx
    (by decide +kernel) accepted found trimmed
  exact ⟨out, newIdx, v, trimmed, preserves.1, (preserves.2 280 size).1⟩

open Microarch in
theorem trimBinary_selects_sample : ∃ res : Bytes × Index,
    trimBinary sha256 buffer [] sampleFile 378 (lit "v3") 7 = .ok res ∧
      selectVariantForHost insertionSlice false res.2.targetArch sampleHost res.2.variantLevels noPolicy =
        .ok ⟨lit "v3", [], []⟩ := by
  obtain ⟨res, returned⟩ := Option.isSome_iff_exists.mp (show (trimBinary sha256 buffer [] sampleFile 378
    (lit "v3") 7).toOption.isSome = true by decide +kernel)
  have trimmed := eq_ok_of_toOption returned
  have accepted : readTrailerAndIndex sha256 sampleFile 378 = .ok (canonicalIndex sampleIndex) :=
    eq_ok_of_toOption (by decide +kernel)
  exact ⟨res, trimmed, trimBinary_selects insertionSlice false (.inl (by decide +kernel)) accepted
    (except_ok_of_toOption (by decide +kernel)) trimmed⟩

end

end Microfat.Pack
