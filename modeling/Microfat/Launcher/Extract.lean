/-
# Microfat.Launcher.Extract — extracting a variant from the running binary

`extractVariantToWriter` loads the shared dictionary, checks the entry, resolves
its codec and streams the decompressed frame into the caller's writer and into a
SHA-256 state at once.  `extractVariantToWriter_ok` is what every caller relies
on: a successful extraction stored exactly `UncompressedSize` bytes whose digest
is the entry's.

A result is the writer's final state together with the error, so that nothing is
said about the state only by forgetting it.
-/
import Microfat.Codec.Registry
import Microfat.Format.Container

namespace Microfat.Launcher

open Theory Format Codec

set_option autoImplicit false

/-- `io.NewSectionReader`: reading at a negative offset fails. -/
def sectionReader (file : Bytes) (offset n : Int64) : Source :=
  if offset.toInt < 0 && 0 < n.toInt then ⟨[], some (.new "negative offset")⟩
  else ⟨(file.drop offset.toInt.toNat).take n.toInt.toNat, none⟩

/-- The dictionary block of both `decompressVariantToWriter` and `VerifyBinary`. -/
def loadDictionary (H : Sha256) (file : Bytes) (idx : Index) : Eval Err Bytes :=
  if idx.dictionarySize.toInt ≤ 0 then .ok []
  else do
    Eval.guard (maxDictionarySize < idx.dictionarySize.toInt || idx.dictionaryOffset.toInt < 0)
      (.about .errInvalidDictionary [.text "dictionary size ", .int idx.dictionarySize.toInt,
        .text " or offset ", .int idx.dictionaryOffset.toInt, .text " out of bounds"])
    Eval.guard (idx.dictionarySHA256 = [] || !validateChecksum idx.dictionarySHA256)
      (.about .errInvalidChecksum [.text "dictionary missing or invalid sha256 checksum"])
    let dictBytes ← Eval.mapError
      (fun err => .wrap [.text "reading shared dictionary: ", .cause] [err])
      (readAt file idx.dictionaryOffset.toInt idx.dictionarySize.toInt.toNat)
    let dictHex := hexEncode (H.sum dictBytes)
    Eval.guard (dictHex ≠ idx.dictionarySHA256)
      (.about .errDictionaryCorrupted
        [.text "expected ", .str idx.dictionarySHA256, .text ", got ", .str dictHex])
    return dictBytes

section

variable [CaseTable] (H : Sha256) (D : Decoders) (file : Bytes) (entry : VariantEntry)
  (idx : Option Index)

/-- Everything `decompressVariantToWriter` does before it touches the writer. -/
def prepareVariant : Eval Err (Bytes × Builtin) := do
  let dictBytes ← match idx with
    | none => .ok []
    | some idx => loadDictionary H file idx
  Eval.guard (entry.uncompressedSize.toInt ≤ 0 || maxPayloadSize < entry.uncompressedSize.toInt)
    (.about .errPayloadTooLarge [.text "variant ", .str entry.level, .text " uncompressed size ",
      .int entry.uncompressedSize.toInt, .text " invalid"])
  Eval.guard (entry.sha256 = [] || !validateChecksum entry.sha256)
    (.about .errInvalidChecksum
      [.text "variant ", .str entry.level, .text " missing or invalid sha256 checksum"])
  let c ← Eval.ofExcept (lookupFor entry.compression entry.level)
  return (dictBytes, c)

variable {σ : Type} (w : ByteWriter σ Err) (s : σ)

def decompressVariantToWriter : σ × Eval Err Unit :=
  match prepareVariant H file entry idx with
  | .error fault => (s, .error fault)
  | .ok (dictBytes, c) =>
    let result := decompressWithOptionalDict w D c s
      (sectionReader file entry.offset entry.compressedSize) entry.uncompressedSize dictBytes
    match result.2 with
    | some err =>
      (result.1, Eval.fail (.wrap [.text "decompressing variant payload: ", .cause] [err]))
    | none => (result.1, .ok ())

def extractVariantToWriter : σ × Eval Err Unit :=
  let result := decompressVariantToWriter H D file entry idx (multi shortWrite w buffer) (s, [])
  match result.2 with
  | .error fault => (result.1.1, .error fault)
  | .ok () =>
    let sum := hexEncode (H.sum result.1.2)
    if sum ≠ entry.sha256 then
      (result.1.1, Eval.fail (.about .errPayloadCorrupted
        [.text "expected ", .str entry.sha256, .text ", got ", .str sum]))
    else (result.1.1, .ok ())

end

/-! ## What a successful extraction stored -/

section

variable [CaseTable] {H : Sha256} {D : Decoders} {file : Bytes} {entry : VariantEntry}
  {idx : Option Index} {σ : Type} {w : ByteWriter σ Err} {s : σ}

theorem decompressVariantToWriter_eq {dict : Bytes} {c : Builtin}
    (prepared : prepareVariant H file entry idx = .ok (dict, c)) :
    ((decompressVariantToWriter H D file entry idx w s).2 = .ok () ↔
      (decompressWithOptionalDict w D c s (sectionReader file entry.offset entry.compressedSize)
        entry.uncompressedSize dict).2 = none) ∧
    (decompressVariantToWriter H D file entry idx w s).1 =
      (decompressWithOptionalDict w D c s (sectionReader file entry.offset entry.compressedSize)
        entry.uncompressedSize dict).1 := by
  unfold decompressVariantToWriter
  rw [prepared]
  dsimp only
  cases ended : (decompressWithOptionalDict w D c s
      (sectionReader file entry.offset entry.compressedSize) entry.uncompressedSize dict).2 with
  | some err => simp
  | none => simp

theorem decompressVariantToWriter_fails {fault : Fault Err}
    (prepared : prepareVariant H file entry idx = .error fault) :
    (decompressVariantToWriter H D file entry idx w s).2 = .error fault := by
  unfold decompressVariantToWriter
  rw [prepared]

theorem extractVariantToWriter_iff :
    (extractVariantToWriter H D file entry idx w s).2 = .ok () ↔
      (decompressVariantToWriter H D file entry idx (multi shortWrite w buffer) (s, [])).2 = .ok () ∧
      hexEncode (H.sum (decompressVariantToWriter H D file entry idx (multi shortWrite w buffer)
        (s, [])).1.2) = entry.sha256 := by
  unfold extractVariantToWriter
  cases ended : (decompressVariantToWriter H D file entry idx (multi shortWrite w buffer)
      (s, [])).2 with
  | error fault => simp [ended]
  | ok u =>
    by_cases same : hexEncode (H.sum (decompressVariantToWriter H D file entry idx
        (multi shortWrite w buffer) (s, [])).1.2) = entry.sha256
    · simp [ended, same]
    · simp [ended, same]

theorem extractVariantToWriter_state :
    (extractVariantToWriter H D file entry idx w s).1 =
      (decompressVariantToWriter H D file entry idx (multi shortWrite w buffer) (s, [])).1.1 := by
  unfold extractVariantToWriter
  dsimp only
  split
  · rfl
  · split <;> rfl

/-- **A successful extraction stored exactly the declared bytes**: through any
writer whose complete writes are stored, the new bytes have the entry's size and
digest. -/
theorem extractVariantToWriter_ok {stored : σ → Bytes} (keeps : Keeps w stored)
    (done : (extractVariantToWriter H D file entry idx w s).2 = .ok ()) :
    ∃ out, stored (extractVariantToWriter H D file entry idx w s).1 = stored s ++ out ∧
      (out.length : Int) = entry.uncompressedSize.toInt ∧ hexEncode (H.sum out) = entry.sha256 := by
  obtain ⟨decompressed, digest⟩ := extractVariantToWriter_iff.mp done
  rw [extractVariantToWriter_state]
  cases prepared : prepareVariant H file entry idx with
  | error fault =>
    rw [decompressVariantToWriter_fails prepared] at decompressed
    cases decompressed
  | ok found =>
    obtain ⟨complete, state⟩ := decompressVariantToWriter_eq (c := found.2) prepared
    have complete := complete.mp decompressed
    rw [state] at digest ⊢
    have pair := decompress_kept (multi_kept keeps (stored s)) (by simp) complete
    have count := decompress_length (multi_keeps w) complete
    rw [List.length_nil, Int.natCast_zero, Int.zero_add] at count
    exact ⟨_, pair, count, digest⟩

theorem extractVariantToWriter_fails {fault : Fault Err}
    (prepared : prepareVariant H file entry idx = .error fault) :
    (extractVariantToWriter H D file entry idx w s).2 = .error fault := by
  unfold extractVariantToWriter
  dsimp only
  rw [decompressVariantToWriter_fails prepared]

end

end Microfat.Launcher
