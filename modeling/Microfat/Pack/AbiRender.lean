/-
# Microfat.Pack.AbiRender — a report is measured as it is written

`Pack.AbiText` has the texts of a report and what they cost.  Here are the functions that
write them: the loop that escapes to a writer and the emitter of a report.

* `escapeRunes_length`, `escapeRunes_wellFormed`: one loop measures what the other writes,
  and what it writes is well-formed and has no control characters, wherever the string was cut;
* `emit_buffer`: a writer that takes everything gets the texts of all the pieces;
* `presentation_exact`: the three together, for every string and every report.
-/
import Microfat.Pack.AbiText
import Microfat.Theory.Runes
import Microfat.Theory.Stream

namespace Microfat.Pack

open Theory

set_option autoImplicit false

/-! ## The writers -/

section

variable {σ : Type} (w : ByteWriter σ Err)

/-- The loop of `writeEscapedToWriter`: one write for each rune. -/
def writeEscapedRunes : Nat → Bytes → σ → σ × Option Err
  | 0, _, out => (out, none)
  | _ + 1, [], out => (out, none)
  | fuel + 1, b :: bs, out =>
    let (r, size) := decodeRune (b :: bs)
    if r = runeError ∧ size = 1 then
      match (w out (hexEscape b.toNat)).err with
      | some err => ((w out (hexEscape b.toNat)).state, some err)
      | none => writeEscapedRunes fuel bs (w out (hexEscape b.toNat)).state
    else
      let esc := if isControl r then hexEscape r else encodeRune r
      match (w out esc).err with
      | some err => ((w out esc).state, some err)
      | none => writeEscapedRunes fuel ((b :: bs).drop size) (w out esc).state

def truncationMarker : Bytes := lit "...[truncated]"

def writeEscapedToWriter (s : Bytes) (out : σ) : σ × Option Err :=
  let shown := s.take maxDisplayLen
  match writeEscapedRunes w shown.length shown out with
  | (out, some err) => (out, some err)
  | (out, none) =>
    if maxDisplayLen < s.length then ((w out truncationMarker).state, (w out truncationMarker).err)
    else (out, none)

/-- `reportEmitter` with a writer; `out` is the state of the writer. -/
structure Emitter (σ : Type) where
  out : σ
  written : Nat
  err : Option Err

namespace Emitter

variable (e : Emitter σ)

/-- What `writeLiteral` and `writeEscaped` share: count `n` bytes, then send them. -/
def count (n : Nat) (send : σ → σ × Option Err) : Emitter σ :=
  if e.err.isSome then e
  else if maxUint64 - n < e.written then
    { e with err := some (.about .errABIResourceLimit [.text "report presentation size overflow"]) }
  else ⟨(send e.out).1, e.written + n, (send e.out).2⟩

def writeLiteral (s : Bytes) : Emitter σ := e.count s.length fun out => ((w out s).state, (w out s).err)

def writeEscaped (s : Bytes) : Emitter σ := e.count (escapedMetadataLen s) (writeEscapedToWriter w s)

/-- One call of the emitter; it is never asked to quote. -/
def write : Piece → Emitter σ
  | .str s => e.writeLiteral w s
  | .escaped s => e.writeEscaped w s
  | .quotedEscaped s => ((e.writeLiteral w [34]).writeEscaped w s).writeLiteral w [34]

end Emitter

def renderABIReport (report : ArtifactABIReport) (out : σ) : σ × Option Err :=
  if report.variants = [] then (out, none)
  else
    let e := (emitReport report).foldl (Emitter.write w) ⟨out, 0, none⟩
    (e.out, e.err)

end

/-! ## Escaped texts -/

theorem hexEscape_wellFormed {v : Nat} (small : v < 256) :
    WellFormed (fun r => isControl r = false) (hexEscape v) := by
  have digits : ∀ d : Fin 16, (hexDigit d).toNat < 0x80 ∧ isControl (hexDigit d).toNat = false := by
    decide
  refine wellFormed_ascii ?_
  simp only [hexEscape, List.forall_mem_cons]
  exact ⟨by decide, by decide, digits ⟨v / 16, by omega⟩, digits ⟨v % 16, by omega⟩, by simp⟩

/-- What the first rune of a string is: an error, or a sequence of its width. -/
theorem decodeRune_split {s : Bytes} (nonempty : s ≠ [])
    (fine : ¬ ((decodeRune s).1 = runeError ∧ (decodeRune s).2 = 1)) :
    ∃ q, Sequence q (decodeRune s).1 ∧ q.length = (decodeRune s).2 := by
  rcases decodeRune_cases nonempty with ⟨q, r, rest, rfl, seq⟩ | wrong
  · rw [decodeRune_sequence seq]
    exact ⟨q, seq, rfl⟩
  · rw [wrong] at fine
    exact absurd ⟨rfl, rfl⟩ fine

theorem isControl_small {r : Nat} (control : isControl r = true) : r < 256 := by
  simp only [isControl, Bool.or_eq_true, decide_eq_true_eq, beq_iff_eq, Bool.and_eq_true] at control
  omega

section

variable (fuel : Nat)

theorem escapeRunes_length : ∀ s, escapedRunesLen fuel s = (escapeRunes fuel s).length := by
  induction fuel with
  | zero => exact fun _ => rfl
  | succ fuel ih =>
    rintro (_ | ⟨b, bs⟩)
    · rfl
    · rw [escapedRunesLen, escapeRunes]
      dsimp only
      split
      · rw [ih, List.length_append]
        rfl
      · rename_i fine
        obtain ⟨q, seq, width⟩ := decodeRune_split (List.cons_ne_nil b bs) fine
        rw [ih, List.length_append]
        split
        · rfl
        · rw [seq.length_encodeRune, width]

theorem escapeRunes_wellFormed : ∀ s,
    WellFormed (fun r => isControl r = false) (escapeRunes fuel s) := by
  induction fuel with
  | zero => exact fun _ => .nil
  | succ fuel ih =>
    rintro (_ | ⟨b, bs⟩)
    · exact .nil
    · rw [escapeRunes]
      dsimp only
      split
      · exact (hexEscape_wellFormed b.toNat_lt).append (ih bs)
      · rename_i fine
        obtain ⟨q, seq, width⟩ := decodeRune_split (List.cons_ne_nil b bs) fine
        refine WellFormed.append ?_ (ih _)
        split
        · rename_i control
          exact hexEscape_wellFormed (isControl_small control)
        · rename_i plain
          exact (sequence_encodeRune seq.scalar).wellFormed (by simpa using plain)

/-- The length of the string is enough fuel for the loops. -/
theorem escapeRunes_fuel : ∀ s : Bytes, s.length ≤ fuel →
    escapeRunes (fuel + 1) s = escapeRunes fuel s := by
  induction fuel with
  | zero =>
    intro s empty
    rw [List.length_eq_zero_iff.mp (Nat.le_zero.mp empty)]
    rfl
  | succ fuel ih =>
    rintro (_ | ⟨b, bs⟩) enough
    · rfl
    · have width := decodeRune_width (List.cons_ne_nil b bs)
      rw [List.length_cons] at enough width
      rw [escapeRunes, escapeRunes]
      dsimp only
      rw [ih bs (by omega), ih _ (by rw [List.length_drop, List.length_cons]; omega)]

theorem truncationMarker_wellFormed : WellFormed (fun r => isControl r = false) truncationMarker :=
  wellFormed_ascii (by decide +kernel)

theorem escapeMetadata_wellFormed (s : Bytes) :
    WellFormed (fun r => isControl r = false) (escapeMetadata s) := by
  unfold escapeMetadata
  dsimp only
  split
  · exact (escapeRunes_wellFormed _ _).append truncationMarker_wellFormed
  · exact escapeRunes_wellFormed _ _

theorem escapedMetadataLen_eq (s : Bytes) : escapedMetadataLen s = (escapeMetadata s).length := by
  unfold escapedMetadataLen escapeMetadata
  dsimp only
  split
  · rw [escapeRunes_length, List.length_append]
    rfl
  · rw [escapeRunes_length]

/-! ## What a buffer receives -/

theorem writeEscapedRunes_buffer : ∀ s out,
    writeEscapedRunes buffer fuel s out = (out ++ escapeRunes fuel s, none) := by
  induction fuel with
  | zero => exact fun _ out => by rw [writeEscapedRunes, escapeRunes, List.append_nil]
  | succ fuel ih =>
    rintro (_ | ⟨b, bs⟩) out
    · rw [writeEscapedRunes, escapeRunes, List.append_nil]
    · rw [writeEscapedRunes, escapeRunes]
      dsimp only [buffer]
      split
      · rw [ih, List.append_assoc]
      · rw [ih, List.append_assoc]

end

theorem writeEscapedToWriter_buffer (s out : Bytes) :
    writeEscapedToWriter buffer s out = (out ++ escapeMetadata s, none) := by
  unfold writeEscapedToWriter escapeMetadata
  simp only [writeEscapedRunes_buffer]
  split
  · rw [← List.append_assoc]
    rfl
  · rfl

theorem Piece.cost_eq (piece : Piece) : piece.cost = piece.text.length := by
  cases piece with
  | str s => rfl
  | escaped s => exact escapedMetadataLen_eq s
  | quotedEscaped s => simp [Piece.cost, Piece.text, escapedMetadataLen_eq]

theorem count_buffer {out text : Bytes} {written : Nat} {send : Bytes → Bytes × Option Err}
    (sends : ∀ out, send out = (out ++ text, none)) (fits : written + text.length ≤ maxUint64) :
    (Emitter.mk out written none).count text.length send =
      ⟨out ++ text, written + text.length, none⟩ := by
  rw [Emitter.count, if_neg (by simp), if_neg (by simpa using by omega), sends]

theorem write_buffer (piece : Piece) {out : Bytes} {written : Nat}
    (fits : written + piece.text.length ≤ maxUint64) :
    (Emitter.mk out written none).write buffer piece =
      ⟨out ++ piece.text, written + piece.text.length, none⟩ := by
  have literal : ∀ {s out : Bytes} {written : Nat}, written + s.length ≤ maxUint64 →
      (Emitter.mk out written none).writeLiteral buffer s = ⟨out ++ s, written + s.length, none⟩ :=
    fun fits => count_buffer (fun _ => rfl) fits
  have escaped : ∀ {s out : Bytes} {written : Nat}, written + (escapeMetadata s).length ≤ maxUint64 →
      (Emitter.mk out written none).writeEscaped buffer s =
        ⟨out ++ escapeMetadata s, written + (escapeMetadata s).length, none⟩ := by
    intro s out written fits
    rw [Emitter.writeEscaped, escapedMetadataLen_eq]
    exact count_buffer (writeEscapedToWriter_buffer s) fits
  cases piece with
  | str s => exact literal fits
  | escaped s => exact escaped fits
  | quotedEscaped s =>
    simp only [Piece.text, List.length_cons, List.length_append, List.length_nil] at fits ⊢
    rw [Emitter.write, literal (by simp; omega), escaped (by simp; omega), literal (by simp; omega)]
    simp only [List.append_assoc, List.cons_append, List.nil_append, List.length_cons, List.length_nil]
    congr 1
    omega

/-- **Everything that is emitted arrives and is counted.** -/
theorem emit_buffer (pieces : List Piece) : ∀ {out : Bytes} {written : Nat},
    written + (textOf pieces).length ≤ maxUint64 →
    pieces.foldl (Emitter.write buffer) ⟨out, written, none⟩ =
      ⟨out ++ textOf pieces, written + (textOf pieces).length, none⟩ := by
  induction pieces with
  | nil => intro out written _; simp [textOf]
  | cons piece pieces ih =>
    intro out written fits
    have text : textOf (piece :: pieces) = piece.text ++ textOf pieces := List.flatMap_cons
    rw [text, List.length_append] at fits
    rw [List.foldl_cons, write_buffer piece (by omega), ih (by omega), text, List.length_append,
      List.append_assoc, Nat.add_assoc]

theorem measure_exact (pieces : List Piece) (ra : ReportAccounting) : ∀ {written : Nat},
    written + (textOf pieces).length ≤ maxUint64 →
    measure written pieces ra = (.ok (written + (textOf pieces).length), ra) := by
  induction pieces with
  | nil => intro written _; rfl
  | cons piece pieces ih =>
    intro written fits
    have text : textOf (piece :: pieces) = piece.text ++ textOf pieces := List.flatMap_cons
    rw [text, List.length_append] at fits ⊢
    have room : Eval.guard (decide (maxUint64 - piece.cost < written)) (GoError.about
        Sentinel.errABIResourceLimit [.text "report presentation size overflow"]) = .ok () :=
      Eval.guard_pass (by rw [piece.cost_eq]; simpa using by omega)
    rw [measure, Metered.bind_apply, Metered.guard, Metered.lift, room]
    dsimp only
    rw [piece.cost_eq, ih (by omega), Nat.add_assoc]

/-- **Measuring equals rendering, and escaping is safe.**  The three loops agree on every
string, whatever its bytes; what they write is well-formed UTF-8 without control characters;
and a report whose presentation does not overflow is written with exactly the bytes that were
measured. -/
theorem presentation_exact :
    (∀ s : Bytes, (∀ extra, escapeRunes (s.length + extra) s = escapeRunes s.length s) ∧
      escapedMetadataLen s = (escapeMetadata s).length ∧
      (∀ out, writeEscapedToWriter buffer s out = (out ++ escapeMetadata s, none)) ∧
      WellFormed (fun r => isControl r = false) (escapeMetadata s)) ∧
    ∀ report : ArtifactABIReport, (textOf (emitReport report)).length ≤ maxUint64 →
      (∀ ra, (measureABIReportPresentation report ra).1 = .ok (textOf (emitReport report)).length) ∧
      ∀ out, renderABIReport buffer report out = (out ++ textOf (emitReport report), none) := by
  constructor
  · intro s
    refine ⟨fun extra => ?_, escapedMetadataLen_eq s, writeEscapedToWriter_buffer s,
      escapeMetadata_wellFormed s⟩
    induction extra with
    | zero => rfl
    | succ extra ih => rw [← Nat.add_assoc, escapeRunes_fuel _ s (Nat.le_add_right _ _), ih]
  · intro report fits
    refine ⟨fun ra => ?_, fun out => ?_⟩
    · rw [measureABIReportPresentation, measure_exact _ ra (by omega), Nat.zero_add]
    · rw [renderABIReport]
      split
      · rename_i empty
        simp [emitReport, empty, textOf]
      · rw [emit_buffer _ (by omega)]

/-- A dependency whose name has a control character and a byte outside of UTF-8. -/
def hostileReport : ArtifactABIReport where
  variants := [{ level := lit "v1", linkage := .linkageAmbiguous, dependencies := [[108, 7, 0xff]],
                 completeness := .metadataPartial }]
  status := .comparisonUnknown
  consistent := false
  overridden := true
  deploymentDisclaimer := lit "declared requirements only"

theorem presentation_exact_hostile :
    (measureABIReportPresentation hostileReport (newReportAccounting 0)).1 = .ok 483 ∧
      renderABIReport buffer hostileReport [] = (textOf (emitReport hostileReport), none) := by
  have size : (textOf (emitReport hostileReport)).length = 483 := by decide +kernel
  obtain ⟨measured, rendered⟩ := presentation_exact.2 hostileReport (by rw [size]; decide)
  exact ⟨size ▸ measured _, rendered []⟩

end Microfat.Pack
