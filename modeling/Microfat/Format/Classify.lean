/-
# Microfat.Format.Classify — files without a trailer

`isFatBinary` looks at the last bytes of a file only; `isMissingTrailerError` asks
an error of the reader for the two sentinels that mean "there is no trailer".
One of them, `errInvalidMagic`, is also what the index decoder returns for an
index that does not start with its own magic, and the reader passes it on.

* `readTrailerAndIndex_missing`: an error of that class comes from a file without
  the trailer magic, or from such an index (`ForeignIndex`);
* `classified_iff`: the classification agrees with the magic exactly on the files
  that are not of that second kind.
-/
import Microfat.Format.Layout
import Microfat.Theory.Sha256

namespace Microfat.Format

open Theory Microarch

set_option autoImplicit false

def isFatBinary (file : Bytes) (totalSize : Int64) : Bool :=
  if totalSize.toInt < trailerSize then false
  else
    match readAt file (totalSize.toInt - magicLen) magicLen with
    | .ok buf => buf = magicString
    | .error _ => false

section

variable [CaseTable] {file : Bytes} {totalSize : Int64}

/-- A file that ends with a consistent trailer (place, size, digest and magic all
right) behind an index that is not JSON and does not start with the index magic. -/
def ForeignIndex (H : Sha256) (file : Bytes) : Prop :=
  ∃ before enc, file = before ++ enc ++ encodeTrailer H (Int64.ofNat before.length) enc ∧
    enc.length ≤ maxIndexSize ∧ looksLikeLegacyJSONIndex enc = false ∧ BadMagic enc

omit [CaseTable] in
theorem isFatBinary_whole (whole : totalSize.toInt = file.length) :
    isFatBinary file totalSize = true ↔
      56 ≤ file.length ∧ file.drop (file.length - 8) = magicString := by
  have sizes : (trailerSize : Int) = 56 ∧ (magicLen : Int) = 8 := ⟨rfl, rfl⟩
  unfold isFatBinary
  split
  · next short =>
      simp only [Bool.false_eq_true, false_iff, not_and]
      intro long
      omega
  · next long =>
      have place : totalSize.toInt - (magicLen : Int) = ((file.take (file.length - 8)).length : Int) := by
        rw [List.length_take]
        omega
      have tail : (file.drop (file.length - 8)).length = magicLen := by
        rw [List.length_drop, magicLen]
        omega
      have read := readAt_append (file.take (file.length - 8)) (file.drop (file.length - 8)) []
        (List.ne_nil_of_length_pos (by rw [tail, magicLen]; omega))
      rw [List.append_nil, List.take_append_drop, ← place, tail] at read
      rw [read]
      simp only [decide_eq_true_eq, iff_and_self]
      intro _
      omega

section

variable (H : Sha256) (whole : totalSize.toInt = file.length)

include H whole

omit [CaseTable] H in
theorem marked_iff : Marked file totalSize ↔ isFatBinary file totalSize = true := by
  rw [isFatBinary_whole whole, Marked, whole, Int.toNat_natCast, List.take_of_length_le]
  · norm_cast
  · rw [List.length_drop]
    omega

/-- An error of the missing-trailer class comes from a file without the trailer
magic or from a foreign index. -/
theorem readTrailerAndIndex_missing {err : Err} (failed : readTrailerAndIndex H file totalSize = .error (.error err))
    (missing : isMissingTrailerError err = true) : isFatBinary file totalSize = false ∨ ForeignIndex H file := by
  rcases ((readTrailerAndIndex_ends H file totalSize).raises failed).missing missing with
    unmarked | ⟨before, enc, o, total, part, place, rest⟩
  · rw [marked_iff whole, Bool.not_eq_true] at unmarked
    exact .inl unmarked
  · have all : before ++ enc ++ encodeTrailer H o enc = file := part.eq_of_length (by omega)
    have offset : Int64.ofNat before.length = o := by
      have := o.toInt_lt
      rw [← Int64.toInt_inj, Int64.toInt_ofNat_of_lt (by omega), place]
    exact .inr ⟨before, enc, by rw [offset, all], rest⟩

/-- A file without the trailer magic is refused with an error of that class. -/
theorem readTrailerAndIndex_notFat (plain : isFatBinary file totalSize = false) :
    ∃ err, readTrailerAndIndex H file totalSize = .error (.error err) ∧
      isMissingTrailerError err = true := by
  have unmarked : ¬ Marked file totalSize := by
    rw [marked_iff whole, plain]
    exact Bool.false_ne_true
  have ends := readTrailerAndIndex_ends H file totalSize
  rcases result : readTrailerAndIndex H file totalSize with (err | trap) | idx
  · exact ⟨err, rfl, (ends.raises result).unmarked whole.le unmarked⟩
  · exact absurd result (ends.safe trap)
  · exact absurd (ends.returns result).1 unmarked

end

/-- A foreign index is refused with an error of that class although the magic is there. -/
theorem readTrailerAndIndex_foreign (H : Sha256) (fits : file.length < 2 ^ 63)
    (foreign : ForeignIndex H file) :
    isFatBinary file (Int64.ofNat file.length) = true ∧
      ∃ err, readTrailerAndIndex H file (Int64.ofNat file.length) = .error (.error err) ∧
        isMissingTrailerError err = true := by
  obtain ⟨before, enc, rfl, small, binary, long, magic⟩ := foreign
  have whole : (Int64.ofNat (before ++ enc ++ encodeTrailer H (Int64.ofNat before.length) enc).length).toInt
      = (before ++ enc ++ encodeTrailer H (Int64.ofNat before.length) enc).length :=
    Int64.toInt_ofNat_of_lt fits
  have place : (before.length : Int) = (Int64.ofNat before.length).toInt := by
    rw [Int64.toInt_ofNat_of_lt (by simp only [List.length_append] at fits; omega)]
  have present : enc ≠ [] := List.ne_nil_of_length_pos (by omega)
  constructor
  · rw [isFatBinary_whole whole]
    refine ⟨by simp only [List.length_append, encodeTrailer_length]; omega, ?_⟩
    have fields : before ++ enc ++ encodeTrailer H (Int64.ofNat before.length) enc =
        (before ++ enc ++ (putInt64 (Int64.ofNat before.length) ++
          (putInt64 (Int64.ofNat enc.length) ++ H.sum enc))) ++ magicString := by
      simp [encodeTrailer]
    rw [fields]
    generalize before ++ enc ++ (putInt64 (Int64.ofNat before.length) ++
      (putInt64 (Int64.ofNat enc.length) ++ H.sum enc)) = front
    rw [List.length_append, magicString_length, Nat.add_sub_cancel, List.drop_left]
  · rw [readTrailerAndIndex_tail place present small binary whole]
    have first : (slice enc 0 4 : Eval Err Bytes) = .ok (enc.take 4) :=
      slice_of_le (by omega) (by omega)
    have raised : unmarshalBinaryIndex enc = Eval.fail (.about .errInvalidMagic
        [.text "expected binary index magic ", .quoted indexMagicV2, .text ", got ",
          .quoted (enc.take 4)]) := by
      rw [unmarshalBinaryIndex, loadFixed, Eval.guard_pass (decide_eq_false (by omega)), Eval.ok_bind,
        first, Eval.ok_bind, Eval.guard, if_pos (decide_eq_true magic)]
      rfl
    refine ⟨_, by rw [raised]; rfl, ?_⟩
    simp [isMissingTrailerError, Err.is, Sentinel.same]

/-- The reader's error class and the look at the last bytes agree on a file. -/
def Classified (H : Sha256) (file : Bytes) : Prop :=
  (∃ err, readTrailerAndIndex H file (Int64.ofNat file.length) = .error (.error err) ∧
      isMissingTrailerError err = true) ↔
    isFatBinary file (Int64.ofNat file.length) = false

/-- **The classification is exact except on foreign indexes.** -/
theorem classified_iff (H : Sha256) (file : Bytes) (fits : file.length < 2 ^ 63) :
    Classified H file ↔ ¬ ForeignIndex H file := by
  have whole : (Int64.ofNat file.length).toInt = file.length := Int64.toInt_ofNat_of_lt fits
  constructor
  · intro agrees foreign
    obtain ⟨fat, missing⟩ := readTrailerAndIndex_foreign H fits foreign
    rw [agrees.mp missing] at fat
    cases fat
  · intro ordinary
    constructor
    · rintro ⟨err, raised, missing⟩
      exact (readTrailerAndIndex_missing H whole raised missing).resolve_right ordinary
    · exact readTrailerAndIndex_notFat H whole

end

section

local instance classifyTable : CaseTable := CaseTable.ascii

/-- An index of 34 zero bytes behind a one-byte stub, with the trailer that fits it. -/
def foreignFile : Bytes :=
  [7] ++ List.replicate 34 0 ++ encodeTrailer sha256 1 (List.replicate 34 0)

theorem foreignFile_misclassified :
    isFatBinary foreignFile (Int64.ofNat foreignFile.length) = true ∧
      ¬ Classified sha256 foreignFile := by
  have foreign : ForeignIndex sha256 foreignFile :=
    ⟨[7], List.replicate 34 0, rfl, by decide, by decide, by decide, by decide⟩
  have small : foreignFile.length < 2 ^ 63 := by decide +kernel
  obtain ⟨fat, missing⟩ := readTrailerAndIndex_foreign sha256 small foreign
  refine ⟨fat, fun agrees => ?_⟩
  rw [agrees.mp missing] at fat
  cases fat

/-- A container with another first byte in its index. -/
def damagedFile : Bytes :=
  sampleBody ++ 1 :: (encodeIndex sampleIndex).drop 1 ++ encodeTrailer sha256 10 (encodeIndex sampleIndex)

theorem damagedFile_ends : (readTrailerAndIndex sha256 damagedFile (Int64.ofNat damagedFile.length)).Ends
    (fun _ => False) fun err => isMissingTrailerError err = false := by decide +kernel

/-- A short file, which has no trailer, and a damaged container, which has one. -/
theorem classified_stub :
    (Classified sha256 [1, 2, 3] ∧ ¬ ForeignIndex sha256 [1, 2, 3]) ∧
      Classified sha256 damagedFile ∧ ¬ ForeignIndex sha256 damagedFile := by
  have ordinary : ¬ ForeignIndex sha256 [1, 2, 3] := by
    rintro ⟨before, enc, whole, -⟩
    have size := congrArg List.length whole
    simp only [List.length_append, encodeTrailer_length, List.length_cons, List.length_nil] at size
    omega
  have damaged : Classified sha256 damagedFile := by
    constructor
    · rintro ⟨err, raised, missing⟩
      rw [damagedFile_ends.raises raised] at missing
      cases missing
    · intro bare
      have fat : isFatBinary damagedFile (Int64.ofNat damagedFile.length) = true := by decide +kernel
      rw [bare] at fat
      cases fat
  exact ⟨⟨(classified_iff sha256 [1, 2, 3] (by decide)).mpr ordinary, ordinary⟩, damaged,
    (classified_iff sha256 damagedFile (by decide +kernel)).mp damaged⟩

end

end Microfat.Format
