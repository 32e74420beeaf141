/-
# Microfat.Format.Layout — every accepted container is laid out soundly

The reader is handed arbitrary bytes.  `readTrailerAndIndex_layout` says what it
guarantees about a file it accepts: the index and the trailer are the tail of the
file, and the dictionary and the frames are non-empty, ordered and disjoint
regions before the index.  It also says that no input, accepted or not, makes a
signed operation wrap or a slice expression leave its bounds.

The regions are an abstract notion of their own (`Packed`); the loop of
`validateVariantBounds` keeps it with the running end offset as the invariant.
-/
import Microfat.Format.Container

namespace Microfat.Format

open Theory Microarch

set_option autoImplicit false

/-! ## Packed regions -/

/-- The half-open range `[start, stop)` of file offsets. -/
structure Region where
  start : Int
  stop : Int

namespace Region

def offsets (r : Region) : Set Int := Set.Ico r.start r.stop

/-- Non-empty and inside `[low, high)`. -/
def Within (low high : Int) (r : Region) : Prop := low ≤ r.start ∧ r.start < r.stop ∧ r.stop ≤ high

end Region

/-- The regions lie between `low` and `high`, each one after the one before it. -/
inductive Packed (high : Int) : Int → List Region → Prop
  | nil (low : Int) : Packed high low []
  | cons {low : Int} {r : Region} {rest : List Region} :
      r.Within low high → Packed high r.stop rest → Packed high low (r :: rest)

namespace Packed

variable {high low : Int} {rs : List Region}

section

variable (packed : Packed high low rs)

include packed

theorem within : ∀ r ∈ rs, r.Within low high := by
  induction packed with
  | nil low => simp
  | @cons low head rest inside tail ih =>
    intro r mem
    rcases List.mem_cons.mp mem with rfl | later
    · exact inside
    · obtain ⟨after, nonempty, upper⟩ := ih r later
      obtain ⟨lower, headNonempty, -⟩ := inside
      exact ⟨by omega, nonempty, upper⟩

theorem ordered : rs.Pairwise fun a b => a.stop ≤ b.start := by
  induction packed with
  | nil low => exact .nil
  | cons inside tail ih => exact .cons (fun r later => (tail.within r later).1) ih

theorem disjoint : rs.Pairwise fun a b => Disjoint a.offsets b.offsets := by
  refine packed.ordered.imp ?_
  intro a b ordered
  exact Set.Ico_disjoint_Ico.mpr (min_le_left _ _ |>.trans (ordered.trans (le_max_right _ _)))

end

end Packed

/-! ## The regions of an index -/

def VariantEntry.region (v : VariantEntry) : Region :=
  ⟨v.offset.toInt, v.offset.toInt + v.compressedSize.toInt⟩

def Index.dictionaryRegions (idx : Index) : List Region :=
  if 0 < idx.dictionarySize.toInt then
    [⟨idx.dictionaryOffset.toInt, idx.dictionaryOffset.toInt + idx.dictionarySize.toInt⟩]
  else []

/-- The dictionary, when there is one, then the frames in index order. -/
def Index.regions (idx : Index) : List Region :=
  idx.dictionaryRegions ++ idx.variants.map VariantEntry.region

section

variable [CaseTable]

/-- What the loop establishes of the variants from index `i` on. -/
structure VariantsLaidOut (indexOffset : Int64) (seen : List Bytes) (low : Int)
    (vs : List VariantEntry) : Prop where
  packed : Packed indexOffset.toInt low (vs.map VariantEntry.region)
  levels : (seen.reverse ++ vs.map fun v => Microarch.normalize v.level).Nodup
  sizes : ∀ v ∈ vs, 0 < v.uncompressedSize.toInt ∧ v.uncompressedSize.toInt ≤ maxPayloadSize
  digests : ∀ v ∈ vs, v.sha256 ≠ [] ∧ validateChecksum v.sha256 = true

theorem validateVariantsFrom_laidOut {idx : Index} {indexOffset : Int64} {vs : List VariantEntry} :
    ∀ {i : Nat} {seen : List Bytes} {lastEnd : Int64}, seen.Nodup →
      (0 < i ∨ 0 < idx.dictionarySize.toInt ∨ lastEnd.toInt = 0) →
      validateVariantsFrom idx indexOffset i seen lastEnd vs = .ok () →
      VariantsLaidOut indexOffset seen lastEnd.toInt vs := by
  -- the running end offset is the lower bound of every later region; for the first
  -- variant without a dictionary it is zero, where the code skips the comparison
  induction vs with
  | nil =>
    intro i seen lastEnd distinct _ _
    exact ⟨.nil _, by simpa using distinct, by simp, by simp⟩
  | cons v rest ih =>
    intro i seen lastEnd distinct first h
    obtain ⟨nextEnd, head, tail⟩ := Eval.bind_ok h
    have ok := validateVariantAt_ends.returns head
    have after : lastEnd.toInt ≤ v.offset.toInt := by
      rcases first with later | dictionary | zero
      · exact ok.after (.inl later)
      · exact ok.after (.inr dictionary)
      · exact zero ▸ ok.offset
    obtain ⟨packed, levels, sizes, digests⟩ :=
      ih (List.nodup_cons.mpr ⟨ok.unseen, distinct⟩) (.inl (Nat.succ_pos i)) tail
    refine ⟨?_, ?_, ?_, ?_⟩
    · have within : v.region.Within lastEnd.toInt indexOffset.toInt := by
        have nonempty := ok.compressed
        have inside := ok.inside
        rw [ok.next] at inside
        exact ⟨after, by show v.offset.toInt < v.offset.toInt + _; omega, inside⟩
      have stop : nextEnd.toInt = v.region.stop := ok.next
      exact .cons within (stop ▸ packed)
    · simpa using levels
    · exact List.forall_mem_cons.mpr ⟨⟨ok.uncompressed, ok.payload⟩, sizes⟩
    · exact List.forall_mem_cons.mpr ⟨ok.digest, digests⟩

theorem validateBounds_variants {idx : Index} {o : Int64} (h : validateBounds idx o = .ok ()) :
    ∃ lastEnd, DictionaryOk idx o lastEnd ∧ VariantsLaidOut o [] lastEnd.toInt idx.variants := by
  obtain ⟨lastEnd, ok⟩ := validateBounds_ok h
  have first : 0 < (0 : Nat) ∨ 0 < idx.dictionarySize.toInt ∨ lastEnd.toInt = 0 := by
    cases ok.dictionary with
    | none empty => exact .inr (.inr rfl)
    | some lastEnd positive => exact .inr (.inl positive)
  exact ⟨lastEnd, ok.dictionary, validateVariantsFrom_laidOut List.nodup_nil first ok.variants⟩

/-- What an accepted index says about the file before `o`. -/
structure LaidOut (idx : Index) (o : Int64) : Prop where
  within : ∀ r ∈ idx.regions, r.Within 0 o.toInt
  ordered : idx.regions.Pairwise fun a b => a.stop ≤ b.start
  disjoint : idx.regions.Pairwise fun a b => Disjoint a.offsets b.offsets
  uncompressed : ∀ v ∈ idx.variants,
    1 ≤ v.uncompressedSize.toInt ∧ v.uncompressedSize.toInt ≤ maxPayloadSize
  dictionary : 0 ≤ idx.dictionarySize.toInt ∧ idx.dictionarySize.toInt ≤ maxDictionarySize
  levels : (idx.variants.map fun v => Microarch.normalize v.level).Nodup

theorem validateBounds_laidOut {idx : Index} {o : Int64} (h : validateBounds idx o = .ok ()) :
    LaidOut idx o := by
  obtain ⟨lastEnd, checked, packed, levels, sizes, -⟩ := validateBounds_variants h
  have all : Packed o.toInt 0 idx.regions := by
    cases checked with
    | none empty =>
      rw [Index.regions, Index.dictionaryRegions, if_neg (by omega)]
      exact packed
    | some lastEnd positive small place present valid next inside =>
      rw [Index.regions, Index.dictionaryRegions, if_pos positive]
      refine .cons ⟨place, ?_, next ▸ inside⟩ (next ▸ packed)
      show idx.dictionaryOffset.toInt < idx.dictionaryOffset.toInt + idx.dictionarySize.toInt
      omega
  have dictionary : 0 ≤ idx.dictionarySize.toInt ∧ idx.dictionarySize.toInt ≤ maxDictionarySize := by
    cases checked with
    | none empty => exact ⟨by omega, by rw [empty]; decide⟩
    | some lastEnd positive small => exact ⟨by omega, small⟩
  exact ⟨all.within, all.ordered, all.disjoint, sizes, dictionary, by simpa using levels⟩

end

/-! ## No input makes the decoder trap

The errors of the decoder do not mean a missing trailer, but for the one about its own magic. -/

theorem other_truncated (message : List Part) : Other (truncated message) := other_about message rfl

/-- An index long enough for its header that does not start with the index magic. -/
def BadMagic (enc : Bytes) : Prop := 34 ≤ enc.length ∧ enc.take 4 ≠ indexMagicV2

section

variable {data : Bytes} {P : Err → Prop}

section

variable (small : data.length < 2 ^ 62)

include small

theorem loadBytes_ends {off width : Nat} {cut : Err} (isCut : P cut) (inside : off ≤ data.length)
    (narrow : width < 65536) :
    (loadBytes data off width cut).Ends (fun r => r.2 ≤ data.length) P := by
  refine (ends_addInt (by omega)).bind fun stop stop_eq => ?_
  refine .guarded (fun _ => isCut) fun room => ?_
  simp only [decide_eq_false_iff_not, Nat.not_lt] at room
  exact (ends_slice (by omega) room).bind fun s _ => room

theorem loadString8_ends {off : Nat} {noLength cut : Err} (isEnd : P noLength) (isCut : P cut) :
    (loadString8 data off noLength cut).Ends (fun r => r.2 ≤ data.length) P := by
  refine .guarded (fun _ => isEnd) fun present => ?_
  simp only [decide_eq_false_iff_not, Nat.not_le] at present
  refine (ends_byteAt present).bind fun len _ => ?_
  refine (ends_addInt (by omega)).bind fun next next_eq => ?_
  have := len.toNat_lt
  exact loadBytes_ends small isCut (by omega) (by omega)

theorem loadUint16_ends {off : Nat} {cut : Err} (isCut : P cut) (inside : off ≤ data.length) :
    (loadUint16 data off cut).Ends (fun r => r.1 < 65536 ∧ r.2 ≤ data.length) P := by
  refine (ends_addInt (by omega)).bind fun stop stop_eq => ?_
  refine .guarded (fun _ => isCut) fun room => ?_
  simp only [decide_eq_false_iff_not, Nat.not_lt] at room
  refine (ends_slice (by omega) room).bind fun s ⟨_, width⟩ => ⟨?_, room⟩
  have bound := leNat_lt s
  rw [width, stop_eq, Nat.add_sub_cancel_left] at bound
  exact bound

theorem loadInt64_ends {off : Nat} (inside : off + 8 ≤ data.length) :
    (loadInt64 data off).Ends (fun r => r.2 = off + 8) P := by
  refine (ends_addInt (by omega)).bind fun stop stop_eq => ?_
  exact (ends_slice (by omega) (by omega)).bind fun s _ => stop_eq

end

variable [CaseTable] (others : ∀ e, Other e → P e)

include others

theorem decodeBinaryVariant_ends (small : data.length < 2 ^ 62) {off i : Nat} :
    (decodeBinaryVariant data off i).Ends (fun r => r.2 ≤ data.length) P := by
  have cut : ∀ message, P (truncated message) := fun message => others _ (other_truncated message)
  refine (loadString8_ends small (cut _) (cut _)).bind fun level levelEnd => ?_
  refine (ends_addInt (by omega)).bind fun stop stop_eq => ?_
  refine .guarded (fun _ => cut _) fun numeric => ?_
  simp only [decide_eq_false_iff_not, Nat.not_lt] at numeric
  refine (loadInt64_ends small (by omega)).bind fun offset at8 => ?_
  refine (loadInt64_ends small (by omega)).bind fun compressed at16 => ?_
  refine (loadInt64_ends small (by omega)).bind fun uncompressed at24 => ?_
  refine (loadString8_ends small (cut _) (cut _)).bind fun sha _ => ?_
  refine .guarded (fun _ => others _ (other_about _ rfl)) fun _ => ?_
  exact (loadString8_ends small (cut _) (cut _)).bind fun comp compEnd => compEnd

theorem decodeVariants_ends (small : data.length < 2 ^ 62) (count : Nat) : ∀ i off : Nat,
    (decodeVariants data count i off).Ends (fun _ => True) P := by
  induction count with
  | zero => exact fun _ _ => trivial
  | succ count ih =>
    intro i off
    exact (decodeBinaryVariant_ends others small).bind fun entry _ => (ih _ _).bind fun rest _ => trivial

variable (foreign : BadMagic data → ∀ message, P (.about .errInvalidMagic message))

include foreign

omit [CaseTable] in
theorem loadFixed_ends : (loadFixed data).Ends (fun _ => 34 ≤ data.length) P := by
  refine .guarded (fun _ => others _ (other_truncated _)) fun long => ?_
  simp only [decide_eq_false_iff_not, Nat.not_lt] at long
  refine (ends_slice (by omega) (by omega)).bind fun magic ⟨same, _⟩ => ?_
  refine .guarded (fun differs => foreign ⟨long, ?_⟩ _) fun _ => ?_
  · rw [decide_eq_true_eq, same] at differs
    exact differs
  refine (ends_slice (by omega) (by omega)).bind fun version _ => ?_
  refine .guarded (fun _ => others _ (other_about _ rfl)) fun _ => ?_
  refine (ends_slice (by omega) (by omega)).bind fun created _ => ?_
  refine (ends_slice (by omega) (by omega)).bind fun dictOffset _ => ?_
  refine (ends_slice (by omega) (by omega)).bind fun dictSize _ => ?_
  exact (ends_slice (by omega) (by omega)).bind fun dictID _ => long

theorem unmarshalBinaryIndex_ends (small : data.length < 2 ^ 62) :
    (unmarshalBinaryIndex data).Ends (fun _ => True) P := by
  have cut : ∀ message, P (truncated message) := fun message => others _ (other_truncated message)
  refine (loadFixed_ends others foreign).bind fun header long => ?_
  refine (loadString8_ends small (cut _) (cut _)).bind fun dictSHA _ => ?_
  refine .guarded (fun _ => others _ (other_about _ rfl)) fun _ => ?_
  refine (loadString8_ends small (cut _) (cut _)).bind fun targetOS _ => ?_
  refine (loadString8_ends small (cut _) (cut _)).bind fun targetArch archEnd => ?_
  refine (loadUint16_ends small (cut _) archEnd).bind fun appLen narrow => ?_
  refine (loadBytes_ends small (cut _) narrow.2 narrow.1).bind fun appName appEnd => ?_
  refine (loadUint16_ends small (cut _) appEnd).bind fun variantCount _ => ?_
  exact (decodeVariants_ends others small _ _ _).bind fun variants _ => trivial

end

/-! ## The reader -/

section

variable [CaseTable]

/-- A file that was accepted starts with `before ++ enc ++ trailer`, where the
trailer is the one the writer would put after `enc`. -/
def Accepted (H : Sha256) (file : Bytes) (totalSize : Int64) (idx : Index) : Prop :=
  ∃ before enc o,
    totalSize.toInt = (before ++ enc ++ encodeTrailer H o enc).length ∧
    before ++ enc ++ encodeTrailer H o enc <+: file ∧ (before.length : Int) = o.toInt ∧
    unmarshalBinaryIndex enc = .ok idx ∧ validateBounds idx o = .ok ()

omit [CaseTable] in
/-- The four fields of a trailer are all of it. -/
theorem trailer_fields {trailer : Bytes} (width : trailer.length = 56) :
    (trailer.drop 0).take 8 ++ ((trailer.drop 8).take 8 ++
      ((trailer.drop 16).take 32 ++ (trailer.drop 48).take 8)) = trailer := by
  rw [List.drop_zero, ← List.append_assoc, ← List.take_add, ← List.append_assoc, ← List.take_add,
    ← List.take_add, List.take_of_length_le (by omega)]

omit [CaseTable] in
/-- What the checks on the trailer's fields say about the file: it starts with what
lies before the index, the index and the trailer the writer would put after it. -/
theorem tail_prefix {H : Sha256} {file trailer enc : Bytes} {o trailerOffset : Int64}
    (trailer_eq : trailer = (file.drop trailerOffset.toInt.toNat).take 56)
    (trailerLen : trailer.length = 56) (place : o = int64 ((trailer.drop 0).take 8))
    (inside : 0 ≤ o.toInt ∧ o.toInt < trailerOffset.toInt)
    (size : (int64 ((trailer.drop 8).take 8)).toInt = trailerOffset.toInt - o.toInt)
    (enc_eq : enc = (file.drop o.toInt.toNat).take enc.length)
    (encLen : (enc.length : Int) = trailerOffset.toInt - o.toInt)
    (hash : H.sum enc = (trailer.drop 16).take 32)
    (magic : (trailer.drop 48).take 8 = magicString) :
    (file.take o.toInt.toNat).length = o.toInt.toNat ∧
      file.take o.toInt.toNat ++ enc ++ encodeTrailer H o enc <+: file := by
  have widths : ((trailer.drop 0).take 8).length = 8 ∧ ((trailer.drop 8).take 8).length = 8 := by
    simp only [List.length_take, List.length_drop]
    omega
  have sizeVal : Int64.ofNat enc.length = int64 ((trailer.drop 8).take 8) := by
    apply Int64.toInt_inj.mp
    have := trailerOffset.toInt_lt
    rw [Int64.toInt_ofNat_of_lt (by omega)]
    omega
  have trailer_is : encodeTrailer H o enc = trailer := by
    rw [encodeTrailer, sizeVal, place, putInt64_int64 widths.1, putInt64_int64 widths.2, hash, ← magic]
    exact trailer_fields trailerLen
  have roomLen : o.toInt.toNat + enc.length = trailerOffset.toInt.toNat := by omega
  have inFile : enc.length ≤ file.length - o.toInt.toNat := by
    have cut := congrArg List.length enc_eq
    rw [List.length_take, List.length_drop] at cut
    omega
  have joined : file.take o.toInt.toNat ++ enc = file.take trailerOffset.toInt.toNat := by
    rw [← roomLen, List.take_add, ← enc_eq]
  refine ⟨by rw [List.length_take]; omega, ?_⟩
  rw [trailer_is, joined, trailer_eq, ← List.take_add]
  exact List.take_prefix _ _

/-- The file has the trailer magic where it would have to be. -/
def Marked (file : Bytes) (totalSize : Int64) : Prop :=
  56 ≤ totalSize.toInt ∧ (file.drop (totalSize.toInt.toNat - 8)).take 8 = magicString

/-- A file that starts with a consistent trailer behind an index that is not JSON and does not
start with the index magic. -/
def ForeignTail (H : Sha256) (file : Bytes) (totalSize : Int64) : Prop :=
  ∃ before enc o, totalSize.toInt = (before ++ enc ++ encodeTrailer H o enc).length ∧
    before ++ enc ++ encodeTrailer H o enc <+: file ∧ (before.length : Int) = o.toInt ∧
    enc.length ≤ maxIndexSize ∧ looksLikeLegacyJSONIndex enc = false ∧ BadMagic enc

/-- What an error of the reader says: one that means a missing trailer comes from a file without
the magic or from a foreign index, and a file without the magic is refused with such an error. -/
structure Explained (H : Sha256) (file : Bytes) (totalSize : Int64) (err : Err) : Prop where
  missing : isMissingTrailerError err = true → ¬ Marked file totalSize ∨ ForeignTail H file totalSize
  unmarked : totalSize.toInt ≤ file.length → ¬ Marked file totalSize → isMissingTrailerError err = true

theorem readTrailerAndIndex_ends (H : Sha256) (file : Bytes) (totalSize : Int64) :
    (readTrailerAndIndex H file totalSize).Ends (fun idx => Marked file totalSize ∧ Accepted H file totalSize idx)
      (Explained H file totalSize) := by
  have trailerVal : (Int64.ofNat trailerSize).toInt = 56 := by decide
  have no : ∀ {e : Err}, Other e → isMissingTrailerError e = true →
      ¬ Marked file totalSize ∨ ForeignTail H file totalSize :=
    fun none missing => absurd missing (by rw [none]; decide)
  refine .guarded (fun short => ⟨fun _ => .inl fun marked => ?_, fun _ _ => ?_⟩) fun long => ?_
  · exact absurd marked.1 (Int.not_le.mpr (of_decide_eq_true short))
  · simp [isMissingTrailerError, Err.is, Sentinel.same]
  have long : 56 ≤ totalSize.toInt := Int.not_lt.mp (of_decide_eq_false long)
  obtain ⟨trailerOffset, trailerEq, trailerPlace⟩ :=
    sub64_ordered (E := Err) (a := totalSize) (b := Int64.ofNat trailerSize) (by omega) (by omega)
  rw [trailerEq, Eval.ok_bind]
  refine ((readAt_ends _ _ _).mono (fun _ held => held) fun e failed => ?_).mapError.bind
    fun trailer read => ?_
  · refine ⟨no (other_wrap (List.forall_mem_cons.mpr ⟨?_, List.forall_mem_singleton.mpr failed.1⟩)), fun whole _ => ?_⟩
    · simp [Other, isMissingTrailerError, Err.is, Sentinel.same]
    · have beyond := failed.2 (by decide) (by omega)
      have : (trailerSize : Int) = 56 := rfl
      omega
  obtain ⟨-, trailer_eq, trailerLen⟩ := read
  have trailerLen : trailer.length = 56 := trailerLen
  refine (ends_slice (by omega) (by omega)).bind fun magic magic_eq => ?_
  have last : magic = (file.drop (totalSize.toInt.toNat - 8)).take 8 := by
    rw [magic_eq.1, trailer_eq, List.drop_take, List.take_take, List.drop_drop,
      show trailerOffset.toInt.toNat + 48 = totalSize.toInt.toNat - 8 by omega]
    rfl
  refine .guarded (fun differs => ⟨fun _ => .inl fun marked => ?_, fun _ _ => ?_⟩) fun magicOk => ?_
  · exact of_decide_eq_true differs (last.trans marked.2)
  · simp [isMissingTrailerError, Err.is, Sentinel.same]
  rw [decide_eq_false_iff_not, Decidable.not_not] at magicOk
  have marked : Marked file totalSize := ⟨long, last ▸ magicOk⟩
  have other : ∀ {e : Err}, Other e → Explained H file totalSize e :=
    fun isOther => ⟨no isOther, fun _ unmarked => absurd marked unmarked⟩
  have about : ∀ {s : Sentinel} {message : List Part},
      (Sentinel.same s .errBinaryTooSmall || Sentinel.same s .errInvalidMagic) = false →
      Explained H file totalSize (.about s message) := fun isOther => other (other_about _ isOther)
  have wrapped : ∀ {message : List Part} {e : Err}, Other e → Explained H file totalSize (.wrap message [e]) :=
    fun isOther => other (other_wrap (List.forall_mem_singleton.mpr isOther))
  refine (ends_slice (by omega) (by omega)).bind fun offsetField offset_eq => ?_
  refine (ends_slice (by omega) (by omega)).bind fun sizeField size_eq => ?_
  refine .guarded (fun _ => about rfl) fun offsetOk => .guarded (fun _ => about rfl) fun sizeOk => ?_
  simp only [Bool.or_eq_false_iff, decide_eq_false_iff_not, Int.not_lt, Int.not_le] at offsetOk sizeOk
  obtain ⟨room, roomEq, roomVal⟩ :=
    sub64_ordered (E := Err) (a := trailerOffset) (b := int64 offsetField) offsetOk.1 (by omega)
  rw [roomEq, Eval.ok_bind]
  refine .guarded (fun _ => about rfl) fun sizeSame => ?_
  simp only [decide_eq_false_iff_not, Decidable.not_not] at sizeSame
  refine (ends_slice (by omega) (by omega)).bind fun hash hash_eq => ?_
  refine ((readAt_ends _ _ _).mono (fun _ held => held) fun e failed => wrapped failed.1).mapError.bind
    fun enc read => ?_
  obtain ⟨-, enc_eq, encLen⟩ := read
  refine .guarded (fun _ => about rfl) fun hashOk => .guarded (fun _ => ?_) fun binary => ?_
  · exact wrapped (by simp [Other, isMissingTrailerError, Err.is, Sentinel.same])
  simp only [decide_eq_false_iff_not, Decidable.not_not] at hashOk
  have sizeInt : (int64 sizeField).toInt = room.toInt := congrArg Int64.toInt sizeSame
  obtain ⟨placed, part⟩ := tail_prefix (H := H) (o := int64 offsetField) trailer_eq trailerLen
    (by rw [offset_eq.1]) ⟨offsetOk.1, by omega⟩ (by rw [← size_eq.1]; omega) (encLen ▸ enc_eq) (by omega)
    (by rw [hashOk, hash_eq.1]) (by rw [← magic_eq.1, magicOk])
  have total : totalSize.toInt = (file.take (int64 offsetField).toInt.toNat ++ enc ++
      encodeTrailer H (int64 offsetField) enc).length := by
    simp only [List.length_append, encodeTrailer_length, placed]
    omega
  have place : ((file.take (int64 offsetField).toInt.toNat).length : Int) = (int64 offsetField).toInt := by
    rw [placed]
    omega
  have encSmall : enc.length ≤ maxIndexSize := by omega
  have foreign : ∀ {e : Err}, BadMagic enc → Explained H file totalSize e := fun bad =>
    ⟨fun _ => .inr ⟨_, enc, _, total, part, place, encSmall, binary, bad⟩, fun _ unmarked => absurd marked unmarked⟩
  refine (unmarshalBinaryIndex_ends (fun e isOther => wrapped isOther) (fun bad _ => foreign bad)
    (encSmall.trans_lt (by decide))).self.mapError.bind fun idx decoded => ?_
  refine ((validateBounds_ends idx _).self.mono (fun _ held => held) fun e isOther => wrapped isOther).mapError.bind
    fun _ bounds => ?_
  exact ⟨marked, _, enc, _, total, part, place, decoded, bounds⟩

/-- The entries of an accepted index have sizes in range and valid digests. -/
theorem readTrailerAndIndex_entries {H : Sha256} {file : Bytes} {totalSize : Int64} {idx : Index}
    (accepted : readTrailerAndIndex H file totalSize = .ok idx) :
    ∀ v ∈ idx.variants,
      (1 ≤ v.uncompressedSize.toInt ∧ v.uncompressedSize.toInt ≤ maxPayloadSize) ∧
        v.sha256 ≠ [] ∧ validateChecksum v.sha256 = true := by
  obtain ⟨-, before, enc, o, -, -, -, -, bounds⟩ :=
    (readTrailerAndIndex_ends H file totalSize).returns accepted
  obtain ⟨lastEnd, -, laidOut⟩ := validateBounds_variants bounds
  exact fun v mem => ⟨laidOut.sizes v mem, laidOut.digests v mem⟩

/-- **Layout soundness of every accepted binary**, and no trap on any input. -/
theorem readTrailerAndIndex_layout (H : Sha256) (file : Bytes) (totalSize : Int64)
    (whole : totalSize.toInt = file.length) :
    (readTrailerAndIndex H file totalSize).Safe ∧
    ∀ idx, readTrailerAndIndex H file totalSize = .ok idx →
      ∃ (o : Int64) (before enc : Bytes),
        file = before ++ enc ++ encodeTrailer H o enc ∧ (before.length : Int) = o.toInt ∧
        unmarshalBinaryIndex enc = .ok idx ∧ LaidOut idx o := by
  have ends := readTrailerAndIndex_ends H file totalSize
  refine ⟨ends.safe, ?_⟩
  intro idx returned
  obtain ⟨-, before, enc, o, total, part, place, decoded, bounds⟩ := ends.returns returned
  have all : before ++ enc ++ encodeTrailer H o enc = file :=
    part.eq_of_length (by omega)
  exact ⟨o, before, enc, all.symm, place, decoded, validateBounds_laidOut bounds⟩

end

section

local instance : CaseTable := CaseTable.ascii

def sampleFile : Bytes :=
  sampleBody ++ encodeIndex sampleIndex ++ encodeTrailer sha256 10 (encodeIndex sampleIndex)

theorem readTrailerAndIndex_layout_sample :
    ∃ idx o before enc, readTrailerAndIndex sha256 sampleFile 378 = .ok idx ∧
      sampleFile = before ++ enc ++ encodeTrailer sha256 o enc ∧
      (before.length : Int) = o.toInt ∧ unmarshalBinaryIndex enc = .ok idx ∧ LaidOut idx o := by
  have accepted : readTrailerAndIndex sha256 sampleFile 378 = .ok (canonicalIndex sampleIndex) :=
    Eval.eq_ok_of_toOption (by decide +kernel)
  obtain ⟨o, before, enc, layout⟩ :=
    (readTrailerAndIndex_layout sha256 sampleFile 378 (by decide +kernel)).2 _ accepted
  exact ⟨_, o, before, enc, accepted, layout⟩

end

end Microfat.Format
