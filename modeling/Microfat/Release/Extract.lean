/-
# Microfat.Release.Extract — what a successful extraction has done

`extract` may stop anywhere with an error.  When it does not, the directory, the
report and the archive are all determined by the entries the tar reader delivered
(`entriesOf`), and the stream by the limit and the padding (`Extracted`).

* `bounded_leads`, `copyEntry_leads`, `extractProduct_leads`, `extractEntries_leads`,
  `drainPadding_leads`: what each part does, whatever its reads return;
* `Loop`: the invariant of the loop over the entries, kept by an entry that is only
  recorded (`Loop.skip`) and by a product (`Loop.product`);
* `extract_verified`: **a successful extraction has written exactly the products.**
-/
import Microfat.Release.Archive

namespace Microfat.Release

open Theory Install
open Function (update update_eq_self update_idem update_of_ne update_self)

set_option autoImplicit false

/-! ## The entries of an archive -/

/-- An entry as it was delivered: its header, its data, and whether the data was
read to its end. -/
structure Entry where
  header : Header
  content : Bytes
  complete : Bool

def Entry.name (e : Entry) : Bytes := cleanPath e.header.name

/-- The entries delivered so far, last first. -/
def entriesOf : List TarEvent → List Entry
  | [] => []
  | .entry header :: log => ⟨header, [], false⟩ :: entriesOf log
  | .data piece ended :: log =>
    match entriesOf log with
    | [] => []
    | e :: es => ⟨e.header, e.content ++ piece, ended⟩ :: es
  | .finished _ :: log => entriesOf log

theorem entriesOf_data {log : List TarEvent} {e : Entry} {es : List Entry} (piece : Bytes) (ended : Bool)
    (last : entriesOf log = e :: es) :
    entriesOf (.data piece ended :: log) = ⟨e.header, e.content ++ piece, ended⟩ :: es := by
  rw [entriesOf, last]

/-- A regular file whose name stays below the directory. -/
structure Entry.Safe (e : Entry) : Prop where
  regular : e.header.typeflag = typeReg
  relative : e.header.name.head? ≠ some slash
  inside : lit ".." ∉ splitSlash e.header.name
  plain : ∀ b ∈ e.header.name, b ≠ 92 ∧ b ≠ 0
  named : e.name ≠ lit "."

/-- Read to its end, and as long as its header says. -/
structure Entry.Whole (e : Entry) : Prop where
  complete : e.complete = true
  length : (e.content.length : Int) = e.header.size.toInt

def Entry.isProduct (e : Entry) : Bool := e.name ∈ products

def Entry.report (H : Sha256) (e : Entry) : Bytes × Install.File :=
  (e.name, ⟨e.header.size.toInt, hexEncode (H.sum e.content)⟩)

/-- What a successful extraction of the stream has done. -/
structure Extracted (H : Sha256) (stream : Bytes) (files : List (Bytes × Install.File)) (w : World) : Prop where
  dest : ∀ name, (w.dest name).isSome ↔ name ∈ products
  product : ∀ name ∈ products, ∃ e ∈ entriesOf w.log, e.name = name ∧
    (∀ other ∈ entriesOf w.log, other.name = name → other = e) ∧ e.Whole ∧
    w.dest name = some ⟨e.content, executableMode⟩ ∧
    files.lookup name = some ⟨e.header.size.toInt, hexEncode (H.sum e.content)⟩
  reported : (files.map Prod.fst).Perm products
  count : (entriesOf w.log).length ≤ maxArchiveEntries
  safe : ∀ e ∈ entriesOf w.log, e.Safe
  distinct : ((entriesOf w.log).map Entry.name).Nodup
  size : stream.length ≤ maxExtractedBytes
  padding : ∃ position, w.log.head? = some (.finished position) ∧ ∀ b ∈ stream.drop position, b = 0

/-! ## Reading through the limit -/

/-- Reading went on in the stream, and the limit counted it. -/
structure Along (n : Nat) (w : World) (n' : Nat) (w' : World) : Prop where
  whole : w'.taken ++ w'.rest = w.taken ++ w.rest
  budget : n' + w'.taken.length = n + w.taken.length

theorem Along.refl (n : Nat) (w : World) : Along n w n w := ⟨rfl, rfl⟩

theorem Along.trans {n n' n'' : Nat} {w w' w'' : World} (h : Along n w n' w') (h' : Along n' w' n'' w'') :
    Along n w n'' w'' :=
  ⟨h'.whole.trans h.whole, h'.budget.trans h.budget⟩

/-- Only reading happened. -/
structure Moved (n : Nat) (w : World) (n' : Nat) (w' : World) : Prop extends Along n w n' w' where
  dest : w'.dest = w.dest
  log : w'.log = w.log

theorem Moved.refl (n : Nat) (w : World) : Moved n w n w := ⟨.refl n w, rfl, rfl⟩

theorem Moved.trans {n n' n'' : Nat} {w w' w'' : World} (h : Moved n w n' w') (h' : Moved n' w' n'' w'') :
    Moved n w n'' w'' :=
  ⟨h.toAlong.trans h'.toAlong, h'.dest.trans h.dest, h'.log.trans h.log⟩

/-- One read: a piece from the front, and an end that is the end of the stream or
of the limit. -/
structure Took (n : Nat) (w : World) (r : (Bytes × Option Err) × Nat) (w' : World) : Prop
    extends Moved n w r.2 w' where
  piece : w'.taken = w.taken ++ r.1.1
  ended : ∀ e, r.1.2 = some e → e.is .ioEOF = true → r.2 ≠ 0 → w'.rest = []

theorem limitedRead_leads (n len : Nat) (w : World) :
    Leads step (limitedRead n len) (Took n w) w := by
  rw [limitedRead]
  split
  · rename_i zero
    subst zero
    exact ⟨.refl 0 w, by simp, by simp⟩
  · refine leads_call fun x => ?_
    refine ⟨⟨⟨?_, ?_⟩, rfl, rfl⟩, rfl, ?_⟩
    · simp [step]
    · simp only [step, List.length_append, List.length_take]
      omega
    · intro e failed isEnd _
      simp only [step] at failed ⊢
      cases fault : x.fault with
      | some failure =>
        rw [Choice.error, fault] at failed
        simp only [Option.map_some, Option.some_or, Option.some.injEq] at failed
        rw [← failed, failure.notEnd] at isEnd
        cases isEnd
      | none =>
        rw [Choice.error, fault] at failed
        simp only [Option.map_none, Option.none_or] at failed
        split at failed
        · rename_i exhausted
          simp only [Bool.and_eq_true, decide_eq_true_eq] at exhausted
          exact exhausted.1
        · cases failed

theorem bounded_leads {α : Type} (p : Reader α) (n : Nat) (w : World) :
    Leads step (bounded n p) (fun r w' => Moved n w r.2 w') w := by
  induction p generalizing n w with
  | ret a => exact .refl n w
  | cmd c k ih =>
    obtain ⟨len⟩ := c
    refine leads_seq (limitedRead_leads n len w) fun r w' took => ?_
    exact leads_mono (ih r.1 r.2 w') fun _ _ moved => took.toMoved.trans moved

/-! ## One product -/

section

variable (tar : Tar) {name : Bytes}

/-- The file and the last entry hold the same bytes. -/
structure Copying (name : Bytes) (header : Header) (es : List Entry) (hashed : Bytes) (w : World) :
    Prop where
  stored : w.dest name = some ⟨hashed, fileMode⟩
  last : ∃ ended, entriesOf w.log = ⟨header, hashed, ended⟩ :: es

/-- What the copy has done when it reports no failure. -/
structure Copied (header : Header) (es : List Entry) (hashed : Bytes) (name : Bytes) (w w' : World) :
    Prop where
  dest : w'.dest = update w.dest name (some ⟨hashed, fileMode⟩)
  last : ∃ ended, entriesOf w'.log = ⟨header, hashed, ended⟩ :: es ∧
    (ended = true ∨ header.size.toInt < hashed.length)

theorem writePiece_leads {hashed : Bytes} {w : World} (stored : w.dest name = some ⟨hashed, fileMode⟩)
    (piece : Bytes) :
    Leads step (writePiece name piece)
      (fun r w' => w'.taken = w.taken ∧ w'.rest = w.rest ∧ w'.log = w.log ∧
        (r = none → w'.dest = update w.dest name (some ⟨hashed ++ piece, fileMode⟩))) w := by
  rw [writePiece]
  split
  · rename_i empty
    refine ⟨rfl, rfl, rfl, fun _ => ?_⟩
    rw [empty, List.append_nil, ← stored, update_eq_self]
  · refine leads_cmd.mpr fun x => ⟨rfl, rfl, rfl, fun fine => ?_⟩
    have whole : x.fault = none := by simpa [step, Choice.error] using fine
    simp [step, World.modify, stored, whole]

theorem copyEntry_leads {header : Header} {es : List Entry} (fuel : Nat) (st : tar.State)
    {n left : Nat} {hashed : Bytes} {w : World} (copying : Copying name header es hashed w)
    (room : header.size.toInt < left + hashed.length) :
    Leads step (copyEntry tar name fuel st n left hashed)
      (fun r w' => Along n w r.2.2 w' ∧ (r.1.2 = none → Copied header es r.1.1 name w w')) w := by
  -- one round appends the same piece to the file, to the hash and to the entry
  induction fuel generalizing st n left hashed w with
  | zero => exact ⟨.refl n w, by simp⟩
  | succ fuel ih =>
    obtain ⟨ended, last⟩ := copying.last
    rw [copyEntry]
    split
    · rename_i full
      subst full
      refine ⟨.refl n w, fun _ => ⟨?_, ended, last, .inr (by simpa using room)⟩⟩
      rw [← copying.stored, update_eq_self]
    · refine leads_seq (bounded_leads _ n w) ?_
      rintro ⟨⟨st, piece, err⟩, n'⟩ w₁ moved
      refine leads_call fun _ => ?_
      have stored : w₁.dest name = some ⟨hashed, fileMode⟩ := by rw [moved.dest, copying.stored]
      have last₁ : entriesOf w₁.log = ⟨header, hashed, ended⟩ :: es := by rw [moved.log, last]
      have extended := entriesOf_data piece (err.any isEOF) last₁
      refine leads_seq (writePiece_leads (w := { w₁ with log := .data piece _ :: w₁.log }) stored piece) ?_
      rintro written w₂ ⟨taken, rest, log, dest⟩
      have along : Along n w n' w₂ := by
        refine moved.toAlong.trans ⟨?_, ?_⟩
        · rw [taken, rest]
        · rw [taken]
      have entry : entriesOf w₂.log =
          ⟨header, hashed ++ piece, err.any isEOF⟩ :: es := by
        rw [log]
        exact extended
      cases written with
      | some failed => exact ⟨along, by simp⟩
      | none =>
        have dest₂ : w₂.dest = update w.dest name (some ⟨hashed ++ piece, fileMode⟩) := by
          rw [dest rfl]
          exact congrArg (update · name _) moved.dest
        cases err with
        | some e =>
          refine ⟨along, fun fine => ⟨dest₂, _, entry, .inl ?_⟩⟩
          simpa using fine
        | none =>
          have copying₂ : Copying name header es (hashed ++ piece) w₂ :=
            ⟨by rw [dest₂, update_self], _, entry⟩
          have room₂ : header.size.toInt < (left - piece.length : Nat) + (hashed ++ piece).length := by
            rw [List.length_append]
            omega
          refine leads_mono (ih st copying₂ room₂) ?_
          rintro r w' ⟨further, copied⟩
          refine ⟨along.trans further, fun fine => ⟨?_, (copied fine).last⟩⟩
          rw [(copied fine).dest, dest₂, update_idem]

variable (H : Sha256)

/-- A product was created, filled from its entry and reported. -/
structure Produced (header : Header) (name : Bytes) (es : List Entry) (file : Install.File) (w w' : World) :
    Prop where
  absent : w.dest name = none
  entry : ∃ e : Entry, e.header = header ∧ e.Whole ∧ entriesOf w'.log = e :: es ∧
    w'.dest = update w.dest name (some ⟨e.content, executableMode⟩) ∧
    file = ⟨header.size.toInt, hexEncode (H.sum e.content)⟩

theorem step_chmod {mode : Nat} {x : Choice} {w : World} (fine : (step w (.chmod name mode) x).2 = none) :
    (step w (.chmod name mode) x).1 = w.modify name fun s => ⟨s.content, mode⟩ := by
  cases failed : x.error with
  | some err => simp [step, failed] at fine
  | none => simp [step, failed]

theorem copyErr_none {failed : Option Err} {length size : Int}
    (h : (if failed.isNone && length ≠ size then some (GoError.new "truncated archive product")
      else failed) = none) : failed = none ∧ length = size := by
  cases failed with
  | some err => simp at h
  | none => simpa using h

theorem extractProduct_leads {header : Header} {es : List Entry} (fuel : Nat) (st : tar.State) (n : Nat)
    {w : World} (last : entriesOf w.log = ⟨header, [], false⟩ :: es) :
    Leads step (extractProduct tar H fuel st n header name)
      (fun r w' => ∀ file st' n', r = .ok (file, st', n') →
        Along n w n' w' ∧ Produced H header name es file w w') w := by
  rw [extractProduct]
  split
  · simp
  · rename_i sized
    simp only [Bool.or_eq_true, decide_eq_true_eq, not_or, Int.not_le] at sized
    refine leads_call fun x => ?_
    simp only [step]
    cases failed : x.error with
    | some err => simp
    | none =>
      cases absent : w.dest name with
      | some stored => simp
      | none =>
        have copying : Copying name header es []
            { w with dest := update w.dest name (some ⟨[], fileMode⟩) } :=
          ⟨by simp, false, last⟩
        refine leads_seq (copyEntry_leads tar fuel st copying (by simp)) ?_
        rintro ⟨⟨hashed, failed⟩, st', n'⟩ w' ⟨along, copied⟩
        refine leads_call fun y => leads_call fun z => ?_
        dsimp only
        split
        · simp
        · rename_i fine
          rintro file st'' n'' ⟨⟩
          simp only [GoError.join_eq_none, List.forall_mem_cons] at fine
          obtain ⟨copyErr, chmodErr, -⟩ := fine
          obtain ⟨unfailed, length⟩ := copyErr_none copyErr
          obtain ⟨dest, ended, entries, enough⟩ := copied unfailed
          rw [show ∀ u, (step u (.close name) z).1 = u from fun _ => rfl, step_chmod chmodErr]
          refine ⟨⟨along.whole, along.budget⟩, absent, ⟨header, hashed, ended⟩, rfl, ⟨?_, length⟩, entries, ?_,
            by rw [length]⟩
          · exact enough.resolve_right (Int.not_lt.mpr length.le)
          · simp [World.modify, dest]

/-! ## The loop over the entries -/

structure Loop (stream : Bytes) (seen : List Bytes) (files : List (Bytes × Install.File)) (n : Nat)
    (w : World) : Prop where
  whole : w.taken ++ w.rest = stream
  budget : n + w.taken.length = maxExtractedBytes + 1
  names : seen = (entriesOf w.log).map Entry.name
  distinct : seen.Nodup
  count : seen.length ≤ maxArchiveEntries
  safe : ∀ e ∈ entriesOf w.log, e.Safe
  reports : files = ((entriesOf w.log).filter Entry.isProduct).map (Entry.report H)
  written : ∀ e ∈ entriesOf w.log, e.name ∈ products →
    e.Whole ∧ w.dest e.name = some ⟨e.content, executableMode⟩
  only : ∀ name, (w.dest name).isSome → ∃ e ∈ entriesOf w.log, e.name = name ∧ name ∈ products

variable {H} {stream : Bytes} {seen : List Bytes} {files : List (Bytes × Install.File)} {n : Nat} {w : World}

theorem validateEntry_ok {header : Header} {name : Bytes} (ok : validateEntry header seen = .ok name) :
    name = cleanPath header.name ∧ name ∉ seen ∧ seen.length < maxArchiveEntries ∧
      ∀ content ended, Entry.Safe ⟨header, content, ended⟩ := by
  rw [validateEntry] at ok
  split_ifs at ok with safe limits
  cases ok
  simp only [Bool.or_eq_true, decide_eq_true_eq, not_or, beq_iff_eq, List.any_eq_true, not_exists, not_and,
    Decidable.not_not, Nat.not_le] at safe limits
  obtain ⟨⟨⟨⟨⟨regular, relative⟩, plain⟩, inside⟩, named⟩, fresh⟩ := safe
  exact ⟨rfl, fresh, limits.1.1, fun _ _ => ⟨regular, relative, inside, plain, named⟩⟩

section

variable (h : Loop H stream seen files n w)

include h

/-- Reading changes nothing the invariant looks at. -/
theorem Loop.moved {n' : Nat} {w' : World} (moved : Moved n w n' w') :
    Loop H stream seen files n' w' where
  whole := moved.whole.trans h.whole
  budget := moved.budget.trans h.budget
  names := by rw [moved.log, h.names]
  distinct := h.distinct
  count := h.count
  safe := by rw [moved.log]; exact h.safe
  reports := by rw [moved.log, h.reports]
  written := by rw [moved.log, moved.dest]; exact h.written
  only := by rw [moved.log, moved.dest]; exact h.only

/-- An entry that is not a product is only recorded. -/
theorem Loop.skip {header : Header} {name : Bytes} (ok : validateEntry header seen = .ok name)
    (foreign : name ∉ products) :
    Loop H stream (name :: seen) files n { w with log := .entry header :: w.log } := by
  obtain ⟨rfl, fresh, room, safe⟩ := validateEntry_ok ok
  refine
    { whole := h.whole
      budget := h.budget
      names := by rw [entriesOf, List.map_cons, ← h.names]; rfl
      distinct := List.nodup_cons.mpr ⟨fresh, h.distinct⟩
      count := room
      safe := ?_
      reports := ?_
      written := ?_
      only := fun name there => ?_ }
  · exact List.forall_mem_cons.mpr ⟨safe [] false, h.safe⟩
  · have dropped : ¬ Entry.isProduct ⟨header, [], false⟩ = true := by
      rw [Entry.isProduct, decide_eq_true_iff]
      exact foreign
    rw [entriesOf, List.filter_cons_of_neg dropped, h.reports]
  · exact List.forall_mem_cons.mpr ⟨fun mem => absurd mem foreign, h.written⟩
  · obtain ⟨e, mem, named⟩ := h.only name there
    exact ⟨e, List.mem_cons_of_mem _ mem, named⟩

/-- A product is written, and no other file is touched. -/
theorem Loop.product {header : Header} {name : Bytes} {file : Install.File} {n' : Nat} {w' : World}
    (ok : validateEntry header seen = .ok name) (mem : name ∈ products) (along : Along n w n' w')
    (produced : Produced H header name (entriesOf w.log) file w w') :
    Loop H stream (name :: seen) ((name, file) :: files) n' w' := by
  obtain ⟨rfl, fresh, room, safe⟩ := validateEntry_ok ok
  obtain ⟨e, rfl, whole, entries, dest, rfl⟩ := produced.entry
  have others : ∀ other ∈ entriesOf w.log, other.name ≠ e.name := by
    intro other mem same
    refine fresh ?_
    rw [h.names]
    exact List.mem_map.mpr ⟨other, mem, same⟩
  refine
    { whole := along.whole.trans h.whole
      budget := along.budget.trans h.budget
      names := by rw [entries, List.map_cons, ← h.names]; rfl
      distinct := List.nodup_cons.mpr ⟨fresh, h.distinct⟩
      count := room
      safe := ?_
      reports := ?_
      written := ?_
      only := fun name there => ?_ }
  · rw [entries]
    exact List.forall_mem_cons.mpr ⟨safe e.content e.complete, h.safe⟩
  · have kept : e.isProduct = true := decide_eq_true mem
    rw [entries, List.filter_cons_of_pos kept, List.map_cons, ← h.reports]
    rfl
  · rw [entries]
    refine List.forall_mem_cons.mpr ⟨fun _ => ⟨whole, ?_⟩, fun other otherMem isProduct => ?_⟩
    · rw [dest]
      exact update_self ..
    · obtain ⟨otherWhole, stored⟩ := h.written other otherMem isProduct
      refine ⟨otherWhole, ?_⟩
      rw [dest]
      exact (update_of_ne (others other otherMem) ..).trans stored
  · rw [entries]
    by_cases same : name = e.name
    · exact ⟨e, by simp, same.symm, same ▸ mem⟩
    · have kept : w'.dest name = w.dest name := by
        rw [dest]
        exact update_of_ne same ..
      rw [kept] at there
      obtain ⟨other, otherMem, named⟩ := h.only name there
      exact ⟨other, List.mem_cons_of_mem _ otherMem, named⟩

end

variable (H)

theorem extractEntries_leads (fuel : Nat) (st : tar.State) (h : Loop H stream seen files n w) :
    Leads step (extractEntries tar H fuel st n seen files)
      (fun r w' => ∀ files' n', r = .ok (files', n') →
        w'.log.head? = some (.finished w'.taken.length) ∧ ∃ seen', Loop H stream seen' files' n' w') w := by
  induction fuel generalizing st n seen files w with
  | zero => simp [extractEntries]
  | succ fuel ih =>
    rw [extractEntries]
    refine leads_seq (bounded_leads _ n w) ?_
    rintro ⟨⟨st, result⟩, n'⟩ w₁ moved
    have h₁ := h.moved moved
    cases result with
    | error err =>
      dsimp only
      split
      · refine leads_call fun _ => ?_
        rintro _ _ ⟨⟩
        exact ⟨rfl, seen, h₁.whole, h₁.budget, h₁.names, h₁.distinct, h₁.count, h₁.safe, h₁.reports,
          h₁.written, h₁.only⟩
      · simp
    | ok header =>
      refine leads_call fun _ => ?_
      cases ok : validateEntry header seen with
      | error err => simp
      | ok name =>
        dsimp only
        split
        · rename_i mem
          refine leads_seq (@extractProduct_leads tar name H header (entriesOf w₁.log) fuel st n' _ rfl) ?_
          rintro (err | ⟨file, st', n''⟩) w₂ done
          · simp
          · obtain ⟨along, produced⟩ := done file st' n'' rfl
            exact ih st' (h₁.product ok mem ⟨along.whole, along.budget⟩
              ⟨produced.absent, produced.entry⟩)
        · rename_i foreign
          exact ih st (h₁.skip ok foreign)

end

/-! ## After the archive -/

/-- The rest of the stream is zeros, and the limit was not reached. -/
theorem drainPadding_leads (fuel n : Nat) (w : World) :
    Leads step (drainPadding fuel n)
      (fun r w' => r = .ok () → w'.dest = w.dest ∧ w'.log = w.log ∧
        w.rest.length < n ∧ ∀ b ∈ w.rest, b = 0) w := by
  induction fuel generalizing n w with
  | zero => simp [drainPadding]
  | succ fuel ih =>
    rw [drainPadding]
    refine leads_seq (limitedRead_leads n 4096 w) ?_
    rintro ⟨⟨piece, err⟩, n'⟩ w₁ took
    have split : w.rest = piece ++ w₁.rest := by
      have whole := took.whole
      rw [took.piece, List.append_assoc] at whole
      exact (List.append_cancel_left whole).symm
    have budget : n' + piece.length = n := by
      have counted := took.budget
      rw [took.piece, List.length_append] at counted
      dsimp only at counted
      omega
    dsimp only
    split
    · simp
    · rename_i zeros
      have zero : ∀ b ∈ piece, b = 0 := by simpa using zeros
      split
      · simp
      · rename_i left
        cases err with
        | none =>
          refine leads_mono (ih n' w₁) fun r w' further ok => ?_
          obtain ⟨dest, log, fits, rest⟩ := further ok
          refine ⟨dest.trans took.dest, log.trans took.log, ?_, ?_⟩
          · rw [split, List.length_append]
            omega
          · rw [split]
            exact List.forall_mem_append.mpr ⟨zero, rest⟩
        | some e =>
          dsimp only
          split
          · rename_i isEnd
            intro _
            have done : w₁.rest = [] := took.ended e rfl isEnd left
            rw [done, List.append_nil] at split
            refine ⟨took.dest, took.log, ?_, split ▸ zero⟩
            rw [split]
            omega
          · simp

section

variable [CaseTable] (H : Sha256)

omit [CaseTable] in
/-- A command that only looks: every answer continues in the same world. -/
theorem leads_look {α : Type} {c : Call} {f : Reply c → Program α} {Q : α → World → Prop} {w : World}
    (same : ∀ x, (step w c x).1 = w) (next : ∀ r, Leads step (f r) Q w) :
    Leads step (Prog.call c >>= f) Q w := by
  refine leads_call fun x => ?_
  rw [same x]
  exact next _

theorem validateProduct_leads (name arch : Bytes) (w : World) :
    Leads step (validateProduct H name arch) (fun _ w' => w' = w) w := by
  have readFull : ∀ x, (step w (.readFull name 64) x).1 = w := by
    intro x
    cases failed : x.error <;> simp [step, failed]
  have stat : ∀ x, (step w (.stat name) x).1 = w := by
    intro x
    cases failed : x.error <;> simp [step, failed]
  have readAll : ∀ x, (step w (.readAll name) x).1 = w := by
    intro x
    cases failed : x.error <;> simp [step, failed]
  rw [validateProduct]
  refine leads_look (fun _ => rfl) ?_
  rintro (_ | err)
  · refine leads_look readFull ?_
    rintro (err | header)
    · exact rfl
    · dsimp only
      split
      · exact rfl
      · refine leads_look stat ?_
        rintro (err | size)
        · exact rfl
        · refine leads_look readAll ?_
          rintro (err | content)
          · exact rfl
          · dsimp only
            split
            · split <;> exact rfl
            · split <;> exact rfl
  · exact rfl

theorem validateProducts_leads (arch : Bytes) (names : List Bytes) (w : World) :
    Leads step (validateProducts H arch names) (fun _ w' => w' = w) w := by
  induction names with
  | nil => exact rfl
  | cons name rest ih =>
    rw [validateProducts]
    refine leads_seq (validateProduct_leads H name arch w) ?_
    rintro (_ | err) w' rfl
    · exact ih
    · exact rfl

/-! ## The whole extraction -/

/-- An opened archive: nothing read, nothing written. -/
def World.start (stream : Bytes) : World := ⟨[], stream, fun _ => none, []⟩

omit [CaseTable] in
theorem loop_start (stream : Bytes) : Loop H stream [] [] (maxExtractedBytes + 1) (World.start stream) where
  whole := rfl
  budget := rfl
  names := rfl
  distinct := List.nodup_nil
  count := Nat.zero_le _
  safe := by simp [World.start, entriesOf]
  reports := rfl
  written := by simp [World.start, entriesOf]
  only := by simp [World.start]

variable {H} {stream : Bytes} {seen : List Bytes} {files : List (Bytes × Install.File)} {n : Nat} {w : World}

section

variable (h : Loop H stream seen files n w) (three : files.length = products.length)

include h three

omit [CaseTable] in
/-- Three distinct reported names are the three products. -/
theorem Loop.reported : (files.map Prod.fst).Perm products := by
  have names : files.map Prod.fst = ((entriesOf w.log).filter Entry.isProduct).map Entry.name := by
    rw [h.reports, List.map_map]
    rfl
  have distinct : (files.map Prod.fst).Nodup := by
    rw [names]
    exact (h.names ▸ h.distinct).sublist (List.filter_sublist.map _)
  have subset : files.map Prod.fst ⊆ products := by
    intro name mem
    rw [names] at mem
    obtain ⟨e, kept, rfl⟩ := List.mem_map.mp mem
    exact of_decide_eq_true (List.mem_filter.mp kept).2
  refine (List.subperm_of_subset distinct subset).perm_of_length_le ?_
  rw [List.length_map, three]

omit [CaseTable] in
theorem Loop.extracted {w' : World} (ended : w.log.head? = some (.finished w.taken.length))
    (dest : w'.dest = w.dest) (log : w'.log = w.log) (fits : w.rest.length < n) (zeros : ∀ b ∈ w.rest, b = 0) :
    Extracted H stream files w' := by
  have reported := h.reported three
  have distinct : ((entriesOf w.log).map Entry.name).Nodup := h.names ▸ h.distinct
  have entry : ∀ name ∈ products, ∃ e ∈ entriesOf w.log, e.name = name := by
    intro name mem
    have there := reported.mem_iff.mpr mem
    rw [h.reports, List.map_map] at there
    obtain ⟨e, kept, rfl⟩ := List.mem_map.mp there
    exact ⟨e, (List.mem_filter.mp kept).1, rfl⟩
  refine ⟨fun name => ⟨fun there => ?_, fun mem => ?_⟩, fun name mem => ?_, reported, ?_, ?_, ?_, ?_, ?_⟩
  · rw [dest] at there
    obtain ⟨e, -, -, mem⟩ := h.only name there
    exact mem
  · obtain ⟨e, delivered, rfl⟩ := entry name mem
    rw [dest, (h.written e delivered mem).2]
    rfl
  · obtain ⟨e, delivered, rfl⟩ := entry name mem
    obtain ⟨whole, stored⟩ := h.written e delivered mem
    rw [log, dest]
    refine ⟨e, delivered, rfl, fun other otherMem same => ?_, whole, stored, ?_⟩
    · exact List.inj_on_of_nodup_map distinct otherMem delivered same
    · refine lookup_of_distinct (e := e.report H) (reported.nodup_iff.mpr (by decide)) ?_
      rw [h.reports]
      exact List.mem_map.mpr ⟨e, List.mem_filter.mpr ⟨delivered, decide_eq_true mem⟩, rfl⟩
  · rw [log, ← List.length_map (f := Entry.name), ← h.names]
    exact h.count
  · rw [log]
    exact h.safe
  · rw [log]
    exact distinct
  · have counted := h.budget
    rw [← h.whole, List.length_append]
    omega
  · refine ⟨w.taken.length, by rw [log, ended], ?_⟩
    rw [← h.whole, List.drop_left]
    exact zeros

end

theorem extract_leads (H : Sha256) (tar : Tar) (fuel : Nat) (arch stream : Bytes) :
    Leads step (extract H tar fuel arch) (fun r w => ∀ files, r = .ok files → Extracted H stream files w)
      (World.start stream) := by
  rw [extract]
  refine leads_look (fun _ => rfl) ?_
  rintro (_ | err)
  rotate_left
  · simp
  refine leads_look (fun _ => rfl) ?_
  rintro (_ | err)
  rotate_left
  · simp
  refine leads_look (fun _ => rfl) ?_
  rintro (_ | err)
  rotate_left
  · simp
  refine leads_seq (extractEntries_leads tar H fuel tar.init (loop_start H stream)) ?_
  rintro (err | ⟨files, n⟩) w₁ entries
  · simp
  obtain ⟨ended, seen, loop⟩ := entries files n rfl
  refine leads_seq (drainPadding_leads fuel n w₁) ?_
  rintro (err | ⟨⟩) w₂ drained
  · simp
  obtain ⟨dest, log, fits, zeros⟩ := drained rfl
  dsimp only
  split
  · simp
  · rename_i three
    refine leads_seq (validateProducts_leads H arch products w₂) ?_
    rintro (_ | err) w₃ rfl
    · rintro _ ⟨⟩
      exact loop.extracted (Decidable.not_not.mp three) ended dest log fits zeros
    · simp

/-- **A successful extraction has written exactly the products**, for every stream,
every tar reader and every sequence of outcomes. -/
theorem extract_verified (H : Sha256) (tar : Tar) (fuel : Nat) (arch stream : Bytes)
    (outcomes : List Choice) (files : List (Bytes × Install.File)) (w : World)
    (succeeded : (extract H tar fuel arch).runWith step (World.start stream) outcomes =
      some (.ok files, w)) : Extracted H stream files w :=
  (extract_leads H tar fuel arch stream).outcome succeeded files rfl

end

/-! ## A release of three products -/

namespace Ustar

/-- Bytes of the current entry not yet read, and the padding after them. -/
structure State where
  left : Nat
  pad : Nat

def readFull : (fuel len : Nat) → Reader (Bytes × Option Err)
  | 0, _ => return ([], none)
  | fuel + 1, len =>
    if len = 0 then return ([], none)
    else do
      let (piece, err) ← Prog.call (ReadCall.read len)
      match err with
      | some e => return (piece, some e)
      | none => do
          let (rest, err) ← readFull fuel (len - piece.length)
          return (piece ++ rest, err)

def octal (field : Bytes) : Nat :=
  (field.filter fun b => b ≠ 0 && b ≠ 32).foldl (fun v b => 8 * v + (b.toNat - 48)) 0

def parse (block : Bytes) : Header where
  name := (block.take 100).takeWhile (· ≠ 0)
  typeflag := (block.drop 156).headD 0
  size := Int64.ofNat (octal ((block.drop 124).take 12))
  mode := Int64.ofNat (octal ((block.drop 100).take 8))

/-- Skip what is left of the entry, then one header block; two zero blocks end the
archive. -/
def next (st : State) : Reader (State × Except Err Header) := do
  let (_, skipped) ← readFull (st.left + st.pad) (st.left + st.pad)
  let (block, err) ← readFull 512 512
  match skipped.or err with
  | some e => return (⟨0, 0⟩, .error e)
  | none =>
    if block.all (· = 0) then do
      let _ ← readFull 512 512
      return (⟨0, 0⟩, .error (.sentinel .ioEOF))
    else
      let size := (parse block).size.toInt.toNat
      return (⟨size, (512 - size % 512) % 512⟩, .ok (parse block))

def read (st : State) (len : Nat) : Reader (State × Bytes × Option Err) :=
  if st.left = 0 then return (st, [], some (.sentinel .ioEOF))
  else do
    let (piece, err) ← Prog.call (ReadCall.read (min len st.left))
    let left := st.left - piece.length
    return (⟨left, st.pad⟩, piece, err.or (if left = 0 then some (.sentinel .ioEOF) else none))

end Ustar

/-- A tar reader for plain headers. -/
def ustar : Tar := ⟨Ustar.State, ⟨0, 0⟩, Ustar.next, Ustar.read⟩

def padTo (n : Nat) (b : Bytes) : Bytes := b ++ List.replicate (n - b.length) 0

def octalDigits : Nat → Nat → Bytes
  | 0, _ => []
  | width + 1, v => octalDigits width (v / 8) ++ [UInt8.ofNat (48 + v % 8)]

/-- One regular file with mode 0755. -/
def tarEntry (name content : Bytes) : Bytes :=
  let start := padTo 100 name ++ lit "0000755\x000000000\x000000000\x00" ++
    octalDigits 11 content.length ++ lit "\x0000000000000\x00"
  let finish := padTo 356 (lit "0" ++ List.replicate 100 0 ++ lit "ustar\x0000")
  let sum := ((start ++ finish).map UInt8.toNat).sum + 8 * 32
  start ++ octalDigits 6 sum ++ [0, 32] ++ finish ++
    padTo ((content.length + 511) / 512 * 512) content

def elfHeader : Bytes :=
  padTo 52 (lit "\x7fELF" ++ [2, 1, 1] ++ List.replicate 9 0 ++ [2, 0, 62, 0, 1, 0, 0, 0]) ++
    padTo 12 [64, 0]

def fatIndex : Format.Index :=
  { Format.sampleIndex with variants := [⟨lit "v1", 64, 1, 7, List.replicate 64 65, []⟩] }

section

local instance extractTable : CaseTable := CaseTable.ascii

def fatProduct : Bytes :=
  elfHeader ++ [9] ++ Format.encodeIndex fatIndex ++
    Format.encodeTrailer sha256 65 (Format.encodeIndex fatIndex)

def sampleArchive : Bytes :=
  tarEntry (lit "microfat-stub") elfHeader ++ tarEntry (lit "LICENSE") (lit "free") ++
    tarEntry (lit "./microfat") fatProduct ++ tarEntry (lit "microfat-stub-minimal") elfHeader ++
    List.replicate 1024 0

theorem extract_verified_sample : ∃ files w,
    (extract sha256 ustar 9 (lit "amd64")).runWith step (World.start sampleArchive)
      (List.replicate 60 ⟨10000, true, none⟩) = some (.ok files, w) ∧
    Extracted sha256 sampleArchive files w := by
  have succeeds : (((extract sha256 ustar 9 (lit "amd64")).runWith step
      (World.start sampleArchive) (List.replicate 60 ⟨10000, true, none⟩)).any
        fun r => r.1.toOption.isSome) = true := by decide +kernel
  rw [Option.any_eq_true] at succeeds
  obtain ⟨⟨result, w⟩, ran, ok⟩ := succeeds
  obtain ⟨files, returned⟩ := Option.isSome_iff_exists.mp ok
  obtain rfl := except_ok_of_toOption returned
  exact ⟨files, w, ran, extract_verified _ _ _ _ _ _ files w ran⟩

end

end Microfat.Release
