/-
# Microfat.Lifecycle.Staging — the work on a staging file

Between its creation and its publication a staging file is worked on through its
descriptor.  `Retouched` is what metadata calls may change and `Worked` what the
callback may change as well; each program of that stretch is classified by the
calls it uses.  `prepare_leads`: a staging file that is ready holds what the
callback wrote and has passed the readback.
-/
import Microfat.Lifecycle.Early

namespace Microfat.Lifecycle

open Theory

set_option autoImplicit false

section Effects

variable {ι : Type} [DecidableEq ι] (names : Names) (me : ι)

/-! ## Calls that only look -/

variable {c : Call} {α : Type} {w : World ι}

theorem step_looks (looks : c.Looks) (w : World ι) (x : Choice) :
    (step names me w c x).1 = w := by
  cases c <;> first | rfl | cases looks

theorem leads_look {f : c.Reply → Program α} {Q : α → World ι → Prop} (looks : c.Looks)
    (next : ∀ x, Leads (step names me) (f (step names me w c x).2) Q w) :
    Leads (step names me) (Prog.call c >>= f) Q w := by
  refine leads_call fun x => ?_
  rw [step_looks names me looks w x]
  exact next x

theorem leads_looks {p : Program α} {S : α → Prop} (looks : p.Obeys Call.Looks S) (w : World ι) :
    Leads (step names me) p (fun _ w' => w' = w) w := by
  refine leads_mono (leads_uses Eq.refl (fun _ _ _ => Eq.trans) ?_ looks w)
    fun _ _ same => same.symm
  exact fun w c x kind => (step_looks names me kind w x).symm

/-! ## Calls on the staging file -/

variable {ino : Nat}

/-- Only the metadata of one file changed. -/
structure Retouched (ino : Nat) (w w' : World ι) : Prop where
  bind : w'.bind = w.bind
  nextIno : w'.nextIno = w.nextIno
  lock : w'.lock = w.lock
  creator : w'.creator = w.creator
  log : w'.log = w.log
  others : ∀ j, j ≠ ino → w'.node j = w.node j
  content : (w'.node ino).content = (w.node ino).content
  kind : (w'.node ino).kind = (w.node ino).kind
  nlink : (w'.node ino).nlink = (w.node ino).nlink

omit [DecidableEq ι] in
theorem Retouched.refl (ino : Nat) (w : World ι) : Retouched ino w w :=
  ⟨rfl, rfl, rfl, rfl, rfl, fun _ _ => rfl, rfl, rfl, rfl⟩

omit [DecidableEq ι] in
theorem Retouched.trans {u v : World ι} (h : Retouched ino u v) (h' : Retouched ino v w) :
    Retouched ino u w where
  bind := h'.bind.trans h.bind
  nextIno := h'.nextIno.trans h.nextIno
  lock := h'.lock.trans h.lock
  creator := h'.creator.trans h.creator
  log := h'.log.trans h.log
  others j ne := (h'.others j ne).trans (h.others j ne)
  content := h'.content.trans h.content
  kind := h'.kind.trans h.kind
  nlink := h'.nlink.trans h.nlink

omit [DecidableEq ι] in
theorem onNode_retouched (w : World ι) (x : Choice) {f : Node → Node}
    (content : ∀ n, (f n).content = n.content) (kind : ∀ n, (f n).kind = n.kind)
    (nlink : ∀ n, (f n).nlink = n.nlink) : Retouched ino w (onNode w x ino f).1 := by
  rw [onNode]
  split
  · exact .refl ino w
  · refine ⟨rfl, rfl, rfl, rfl, rfl, fun j ne => Function.update_of_ne ne _ _, ?_, ?_, ?_⟩ <;>
      simp [World.setNode, content, kind, nlink]

theorem step_retouches (kind : c.Retouches ino) (w : World ι) (x : Choice) :
    Retouched ino w (step names me w c x).1 := by
  cases c <;> first
    | exact .refl ino w
    | cases kind; exact onNode_retouched w x (fun _ => rfl) (fun _ => rfl) fun _ => rfl
    | cases kind

theorem leads_retouch {f : c.Reply → Program α} {Q : α → World ι → Prop} (kind : c.Retouches ino)
    (next : ∀ r w', Retouched ino w w' → Leads (step names me) (f r) Q w') :
    Leads (step names me) (Prog.call c >>= f) Q w :=
  leads_call fun x => next _ _ (step_retouches names me kind w x)

theorem leads_retouches {p : Program α} {S : α → Prop} (uses : p.Obeys (Call.Retouches ino) S) (w : World ι) :
    Leads (step names me) p (fun _ w' => Retouched ino w w') w :=
  leads_uses (.refl ino) (fun _ _ _ => .trans) (fun w _ x kind => step_retouches names me kind w x) uses w

end Effects

/-! ## The programs on the staging file -/

section Runs

variable {ι : Type} [DecidableEq ι] (names : Names) (me : ι) (R : MapRange)

/-- A readback that finds nothing wrong saw an acceptable file. -/
theorem verifyReadback_leads (staged : Staged) (target : Nat) (snap : Snapshot) (policy : Policy)
    (w : World ι) :
    Leads (step names me) (verifyReadback R staged target snap policy)
      (fun r w' => w' = w ∧ (r = none →
        checkStagedInfo ((w.node staged.ino).info staged.ino) target snap policy = none)) w := by
  refine leads_look names me trivial fun x => ?_
  simp only [step]
  cases x.errno with
  | some n => exact ⟨rfl, by simp⟩
  | none =>
    dsimp only
    cases checked : checkStagedInfo ((w.node staged.ino).info staged.ino) target snap policy with
    | some err => exact ⟨rfl, by simp⟩
    | none =>
      refine leads_look names me trivial fun y => ?_
      rcases (step names me w (.readFdXattrs staged.ino) y).2 with n | attrs
      · exact ⟨rfl, by simp⟩
      · dsimp only
        split
        · exact ⟨rfl, by simp⟩
        · exact ⟨rfl, fun _ => rfl⟩

/-! ## The log -/

def targetsOf (log : List (Event ι)) : List Bytes :=
  log.filterMap fun
    | .target _ path => some path
    | _ => none

def stagingsOf (log : List (Event ι)) : List Loc :=
  log.filterMap fun
    | .staged _ place _ => some place
    | _ => none

def contentsOf (log : List (Event ι)) : List Bytes :=
  log.filterMap fun
    | .transformed _ content => some content
    | _ => none

/-- Only the staging file changed, and what the callback left in it was recorded. -/
structure Worked (ino : Nat) (w w' : World ι) : Prop where
  bind : w'.bind = w.bind
  nextIno : w'.nextIno = w.nextIno
  others : ∀ j, j ≠ ino → w'.node j = w.node j
  kind : (w'.node ino).kind = (w.node ino).kind
  targets : targetsOf w'.log = targetsOf w.log
  stagings : stagingsOf w'.log = stagingsOf w.log
  grown : w.log <:+ w'.log

omit [DecidableEq ι] in
theorem Retouched.worked {ino : Nat} {w w' : World ι} (h : Retouched ino w w') : Worked ino w w' :=
  ⟨h.bind, h.nextIno, h.others, h.kind, by rw [h.log], by rw [h.log], by rw [h.log]⟩

omit [DecidableEq ι] in
theorem Worked.trans {ino : Nat} {u v w : World ι} (h : Worked ino u v) (h' : Worked ino v w) :
    Worked ino u w where
  bind := h'.bind.trans h.bind
  nextIno := h'.nextIno.trans h.nextIno
  others j ne := (h'.others j ne).trans (h.others j ne)
  kind := h'.kind.trans h.kind
  targets := h'.targets.trans h.targets
  stagings := h'.stagings.trans h.stagings
  grown := h.grown.trans h'.grown

/-- The staging file holds what the callback wrote, and passed the readback. -/
structure Ready (staged : Staged) (snap : Snapshot) (policy : Policy) (before : List Bytes) (w : World ι) :
    Prop where
  content : contentsOf w.log = (w.node staged.ino).content :: before
  checked : checkStagedInfo ((w.node staged.ino).info staged.ino) (targetMode snap policy) snap policy = none

theorem transform_leads (ino : Nat) (w : World ι) :
    Leads (step names me) (transform ino)
      (fun r w' => Worked ino w w' ∧
        (r = none → contentsOf w'.log = (w'.node ino).content :: contentsOf w.log)) w := by
  refine leads_cmd.mpr fun x => ?_
  have others : ∀ (n : Node) (j : Nat), j ≠ ino → (w.setNode ino n).node j = w.node j :=
    fun n j ne => Function.update_of_ne ne _ _
  cases failed : x.failure with
  | some err =>
    simp only [step, failed, leads_ret]
    exact ⟨⟨rfl, rfl, others _, by simp [World.setNode], rfl, rfl, List.suffix_refl _⟩, by simp⟩
  | none =>
    simp only [step, failed, leads_ret]
    exact ⟨⟨rfl, rfl, others _, by simp [World.setNode, World.note], rfl, rfl, List.suffix_cons _ _⟩,
      fun _ => by simp [World.setNode, World.note, contentsOf]⟩

theorem prepare_leads (staged : Staged) (snap : Snapshot) (policy : Policy) (w : World ι) :
    Leads (step names me) (prepare R staged snap policy)
      (fun r w' => Worked staged.ino w w' ∧ (r = none → Ready staged snap policy (contentsOf w.log) w')) w := by
  refine leads_retouch names me rfl ?_
  rintro (_ | n) w₁ moded
  rotate_left
  · exact ⟨moded.worked, by simp⟩
  refine leads_seq (leads_retouches names me (stripInheritedStagingACLs_early staged) w₁) ?_
  rintro (_ | err) w₂ stripped
  rotate_left
  · exact ⟨(moded.trans stripped).worked, by simp⟩
  refine leads_seq (transform_leads names me staged.ino w₂) ?_
  rintro (_ | err) w₃ ⟨transformed, written⟩
  rotate_left
  · exact ⟨(moded.trans stripped).worked.trans transformed, by simp⟩
  have sofar := (moded.trans stripped).worked.trans transformed
  refine leads_seq (leads_retouches names me (applyMetadata_early R staged snap policy) w₃) ?_
  rintro (_ | err) w₄ applied
  rotate_left
  · exact ⟨sofar.trans applied.worked, by simp⟩
  refine leads_seq (verifyReadback_leads names me R staged _ snap policy w₄) ?_
  rintro (_ | err) w₅ ⟨rfl, checked⟩
  rotate_left
  · exact ⟨sofar.trans applied.worked, by simp⟩
  have ready : Ready staged snap policy (contentsOf w.log) w₅ := by
    refine ⟨?_, checked rfl⟩
    rw [applied.log, applied.content, written rfl, stripped.log, moded.log]
  refine leads_look names me trivial fun x => ?_
  rcases (step names me w₅ (.fsync staged.ino) x).2 with _ | n
  rotate_left
  · exact ⟨sofar.trans applied.worked, by simp⟩
  refine leads_look names me trivial fun y => ?_
  rcases (step names me w₅ (.close staged.ino) y).2 with _ | n
  · exact ⟨sofar.trans applied.worked, fun _ => ready⟩
  · exact ⟨sofar.trans applied.worked, by simp⟩

end Runs

end Microfat.Lifecycle
