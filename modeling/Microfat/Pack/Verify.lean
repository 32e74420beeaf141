/-
# Microfat.Pack.Verify — offline verification agrees with the launcher

`verifyBinary` decompresses every variant of a container into a hash.  The
launcher decompresses one variant into its destination and a hash, through its
own copy of the same steps in another order.  `verifyBinary_agrees` compares the
two on every accepted container: a variant is reported valid exactly when the
launcher can extract it, and a failure of the whole verification is a failure of
every extraction.
-/
import Microfat.Launcher.Extract
import Microfat.Format.Layout

namespace Microfat.Pack

open Theory Format Codec Launcher

set_option autoImplicit false

structure VerificationResult where
  level : Bytes
  compressedSize : Int64
  uncompressedSize : Int64
  expectedSHA256 : Bytes
  actualSHA256 : Bytes
  valid : Bool
  error : Option Err

section

variable [CaseTable] (H : Sha256) (D : Decoders) (file : Bytes)

/-- One iteration of the loop of `VerifyBinary`. -/
def verifyVariant (dictBytes : Bytes) (v : VariantEntry) : VerificationResult :=
  let res : VerificationResult :=
    { level := v.level, compressedSize := v.compressedSize,
      uncompressedSize := v.uncompressedSize, expectedSHA256 := v.sha256, actualSHA256 := [],
      valid := false, error := none }
  match lookupFor v.compression v.level with
  | .error err => { res with error := some err }
  | .ok c =>
    let hashed := decompressWithOptionalDict buffer D c [] 
      (sectionReader file v.offset v.compressedSize) v.uncompressedSize dictBytes
    match hashed.2 with
    | some err =>
      { res with error := some (.wrap [.text "decompressing variant payload: ", .cause] [err]) }
    | none =>
      let actualHashHex := hexEncode (H.sum hashed.1)
      let res := { res with actualSHA256 := actualHashHex }
      if v.sha256 = [] || !validateChecksum v.sha256 then
        { res with error := some (.about .errInvalidChecksum
            [.text "missing or invalid expected sha256 checksum for variant ", .str v.level]) }
      else if actualHashHex ≠ v.sha256 then
        { res with error := some (.about .errPackChecksumMismatch
            [.text "expected ", .str v.sha256, .text ", got ", .str actualHashHex]) }
      else { res with valid := true }

def verifyBinary (totalSize : Int64) : Eval Err (Index × List VerificationResult) := do
  let idx ← Eval.mapError (fun err => .wrap [.text "reading index: ", .cause] [err])
    (readTrailerAndIndex H file totalSize)
  let dictBytes ← loadDictionary H file idx
  return (idx, idx.variants.map (verifyVariant H D file dictBytes))

end

/-! ## Agreement -/

section

variable [CaseTable] {H : Sha256} {D : Decoders} {file : Bytes} {idx : Index}

/-- A variant is valid when its codec is known and the bytes decompressed into
the hash have the recorded digest. -/
theorem verifyVariant_valid {dict : Bytes} {v : VariantEntry}
    (digest : v.sha256 ≠ [] ∧ validateChecksum v.sha256 = true) :
    (verifyVariant H D file dict v).valid = true ↔
      ∃ c, lookupFor v.compression v.level = .ok c ∧
        (decompressWithOptionalDict buffer D c []
          (sectionReader file v.offset v.compressedSize) v.uncompressedSize dict).2 = none ∧
        hexEncode (H.sum (decompressWithOptionalDict buffer D c []
          (sectionReader file v.offset v.compressedSize) v.uncompressedSize dict).1) = v.sha256 := by
  unfold verifyVariant
  cases found : lookupFor v.compression v.level with
  | error err => simp
  | ok c =>
    dsimp only
    cases ended : (decompressWithOptionalDict buffer D c []
        (sectionReader file v.offset v.compressedSize) v.uncompressedSize dict).2 with
    | some err => simp [ended]
    | none =>
      by_cases same : hexEncode (H.sum (decompressWithOptionalDict buffer D c []
          (sectionReader file v.offset v.compressedSize) v.uncompressedSize dict).1) = v.sha256
      · simp [ended, same, digest.1, digest.2]
      · simp [ended, same, digest.1, digest.2]

/-- On an accepted entry the launcher's own checks pass, so that only the
dictionary and the codec decide. -/
theorem prepareVariant_eq {v : VariantEntry} {dict : Bytes}
    (loaded : loadDictionary H file idx = .ok dict)
    (size : 1 ≤ v.uncompressedSize.toInt ∧ v.uncompressedSize.toInt ≤ maxPayloadSize)
    (digest : v.sha256 ≠ [] ∧ validateChecksum v.sha256 = true) :
    prepareVariant H file v (some idx) =
      (Eval.ofExcept (lookupFor v.compression v.level) >>= fun c => pure (dict, c)) := by
  rw [prepareVariant]
  dsimp only
  rw [loaded, Eval.ok_bind, Eval.guard_pass, Eval.ok_bind, Eval.guard_pass, Eval.ok_bind]
  · simpa using digest
  · simp
    omega

variable {σ : Type} {w : ByteWriter σ Err} {stored : σ → Bytes} {s : σ}

omit [CaseTable] in
/-- The launcher's hash beside its writer answers like the verifier's hash. -/
theorem hash_answers (writes : Stores w stored) :
    Answers (multi shortWrite w buffer) (buffer : ByteWriter Bytes Err)
      fun pair hash => pair.2 = hash := by
  have second : Stores (multi shortWrite w buffer) fun pair => pair.2 :=
    (multi_stores writes buffer_stores).2
  intro pair hash piece same
  refine ⟨second.n pair piece, second.err pair piece, ?_⟩
  show ((multi shortWrite w buffer) pair piece).state.2 = hash ++ piece
  rw [← same]
  exact second.state pair piece

theorem verifyVariant_agrees (writes : Stores w stored) {v : VariantEntry} {dict : Bytes}
    (loaded : loadDictionary H file idx = .ok dict)
    (size : 1 ≤ v.uncompressedSize.toInt ∧ v.uncompressedSize.toInt ≤ maxPayloadSize)
    (digest : v.sha256 ≠ [] ∧ validateChecksum v.sha256 = true) :
    (verifyVariant H D file dict v).valid = true ↔
      (extractVariantToWriter H D file v (some idx) w s).2 = .ok () := by
  rw [verifyVariant_valid digest, extractVariantToWriter_iff]
  have prepared := prepareVariant_eq loaded size digest
  cases found : lookupFor v.compression v.level with
  | error err =>
    rw [found] at prepared
    rw [decompressVariantToWriter_fails prepared]
    simp
  | ok c =>
    rw [found] at prepared
    obtain ⟨complete, state⟩ := decompressVariantToWriter_eq (c := c) (w := multi shortWrite w buffer)
      (s := (s, [])) (D := D) prepared
    rw [complete, state]
    obtain ⟨hash, error⟩ := decompress_sim (D := D) (c := c) (t := []) (s := (s, []))
      (hash_answers writes) rfl
    rw [error, hash]
    simp

/-- **Offline verification agrees with the launcher.**  On an accepted container,
through any writer that does not fail: a variant is reported valid exactly when
the launcher extracts it, and then the bytes written have the recorded size and
digest; and `VerifyBinary` itself fails only on the shared dictionary, in which
case every extraction fails with the same error. -/
theorem verifyBinary_agrees (H : Sha256) (D : Decoders) (file : Bytes) (totalSize : Int64)
    (idx : Index) (accepted : readTrailerAndIndex H file totalSize = .ok idx) {σ : Type}
    (w : ByteWriter σ Err) (stored : σ → Bytes) (writes : Stores w stored) (s : σ) :
    (∀ idx' results, verifyBinary H D file totalSize = .ok (idx', results) →
      idx' = idx ∧ List.Forall₂ (fun v (res : VerificationResult) =>
        (res.valid = true ↔ (extractVariantToWriter H D file v (some idx) w s).2 = .ok ()) ∧
        (res.valid = true → ∃ out,
          stored (extractVariantToWriter H D file v (some idx) w s).1 = stored s ++ out ∧
          (out.length : Int) = v.uncompressedSize.toInt ∧ hexEncode (H.sum out) = v.sha256))
        idx.variants results) ∧
    (∀ fault, verifyBinary H D file totalSize = .error fault →
      loadDictionary H file idx = .error fault ∧
      ∀ v ∈ idx.variants, (extractVariantToWriter H D file v (some idx) w s).2 = .error fault) := by
  have entries := readTrailerAndIndex_entries accepted
  have unfolded : verifyBinary H D file totalSize = (loadDictionary H file idx >>= fun dict =>
      pure (idx, idx.variants.map (verifyVariant H D file dict))) := by
    rw [verifyBinary, accepted, Eval.mapError_ok, Eval.ok_bind]
  constructor
  · intro idx' results verified
    rw [unfolded] at verified
    obtain ⟨dict, loaded, returned⟩ := Eval.bind_ok verified
    cases returned
    refine ⟨rfl, List.forall₂_map_right_iff.mpr (List.forall₂_same.mpr ?_)⟩
    intro v mem
    obtain ⟨size, digest⟩ := entries v mem
    have agrees := verifyVariant_agrees (D := D) (s := s) writes loaded size digest
    exact ⟨agrees, fun valid => extractVariantToWriter_ok writes.keeps (agrees.mp valid)⟩
  · intro fault failed
    rw [unfolded] at failed
    cases loaded : loadDictionary H file idx with
    | ok dict => rw [loaded] at failed; cases failed
    | error fault' =>
      rw [loaded] at failed
      cases failed
      refine ⟨rfl, fun v _ => extractVariantToWriter_fails ?_⟩
      rw [prepareVariant]
      dsimp only
      rw [loaded]
      rfl

end

section

local instance : CaseTable := CaseTable.ascii

/-- A decoder that delivers seven bytes in two pieces when it is given the dictionary. -/
def sampleDecoders : Decoders :=
  { zstd := fun dict _ => .ok ⟨if dict = [5, 6, 7] then [[1, 2, 3], [4, 5, 6, 7]] else [], none⟩
    lz4 := fun _ => ⟨[], none⟩ }

theorem verifyBinary_agrees_sample :
    ∃ results, verifyBinary sha256 sampleDecoders sampleFile 378 =
        .ok (canonicalIndex sampleIndex, results) ∧ results.map (·.valid) = [true, true] ∧
      List.Forall₂ (fun v (res : VerificationResult) =>
        (res.valid = true ↔ (extractVariantToWriter sha256 sampleDecoders sampleFile v
          (some (canonicalIndex sampleIndex)) buffer []).2 = .ok ()) ∧
        (res.valid = true → ∃ out, (extractVariantToWriter sha256 sampleDecoders sampleFile v
            (some (canonicalIndex sampleIndex)) buffer []).1 = [] ++ out ∧
          (out.length : Int) = v.uncompressedSize.toInt ∧
          hexEncode (sha256.sum out) = v.sha256))
        (canonicalIndex sampleIndex).variants results := by
  have accepted : readTrailerAndIndex sha256 sampleFile 378 =
      .ok (canonicalIndex sampleIndex) := Eval.eq_ok_of_toOption (by decide +kernel)
  have outcome : ((verifyBinary sha256 sampleDecoders sampleFile 378).toOption.any fun r =>
      r.1 = canonicalIndex sampleIndex ∧ r.2.map (·.valid) = [true, true]) = true := by decide +kernel
  rw [Option.any_eq_true] at outcome
  obtain ⟨⟨idx, results⟩, returned, same⟩ := outcome
  obtain ⟨rfl, valid⟩ := of_decide_eq_true same
  have verified := Eval.eq_ok_of_toOption returned
  exact ⟨results, verified, valid, ((verifyBinary_agrees sha256 sampleDecoders sampleFile 378 _ accepted
    buffer id buffer_stores []).1 _ _ verified).2⟩

end

end Microfat.Pack
