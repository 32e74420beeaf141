/-
# Microfat.Lifecycle.Atomic — a transaction happens or it does not

One run of `execute`, nobody else about, every outcome of every call.

* `Staging`: from the creation of the staging file to its publication everything
  else is as it was at the start, up to directories above the destination;
* `execute_all_or_nothing`: **either the destination is as before and the staging
  file is gone, or it holds the transformed and verified content**, and the result
  says which.
-/
import Microfat.Lifecycle.Staging

namespace Microfat.Lifecycle

open Theory
open Function (update update_apply update_of_ne update_self)

set_option autoImplicit false

/-! ## From the start to the publication -/

section States

variable {ι : Type} {w₀ w w' : World ι}

/-- What was there is still there, unchanged. -/
structure Kept (w w' : World ι) : Prop where
  entries : ∀ e i, w.bind e = some i → w'.bind e = some i
  nodes : ∀ i, i < w.nextIno → w'.node i = w.node i

/-- Nothing but some directories has been made. -/
structure Prior (w₀ : World ι) (dirs : List Loc) (w : World ι) : Prop extends Kept w₀ w where
  sound : w.Sound
  grown : w₀.nextIno ≤ w.nextIno
  only : ∀ e, e ∉ dirs → w.bind e = w₀.bind e

/-- A new file is under a name that was free. -/
structure Staging (w₀ : World ι) (dirs : List Loc) (place : Loc) (ino : Nat) (w : World ι) : Prop
    extends Kept w₀ w where
  bound : w.bind place = some ino
  free : w₀.bind place = none
  young : w₀.nextIno ≤ ino
  only : ∀ e, e ∉ dirs → e ≠ place → w.bind e = w₀.bind e
  regular : (w.node ino).kind = .regular

/-- It has moved to another name. -/
structure Placed (dest place : Loc) (ino : Nat) (w w' : World ι) : Prop where
  bound : w'.bind dest = some ino
  gone : w'.bind place = none
  node : ∃ n, w'.node ino = { w.node ino with nlink := n }
  others : ∀ e, e ≠ dest → e ≠ place → w'.bind e = w.bind e
  kinds : ∀ i, (w'.node i).kind = (w.node i).kind
  log : ∃ run replaced, w'.log = .published run dest replaced ino :: w.log

section Move

variable {e old new : Loc} {ino : Nat} (w : World ι)

theorem move_bind_old : (w.move old new ino).bind old = none := update_self ..

theorem move_bind_new (ne : new ≠ old) : (w.move old new ino).bind new = some ino :=
  (update_of_ne ne _ _).trans (update_self ..)

theorem move_bind_other (notOld : e ≠ old) (notNew : e ≠ new) :
    (w.move old new ino).bind e = w.bind e := by
  simp only [World.move, World.setBind]
  rw [update_of_ne notOld, update_of_ne notNew]
  split <;> rfl

variable (old new ino)

@[simp] theorem move_creator : (w.move old new ino).creator = w.creator := by
  simp only [World.move, World.setBind]
  split <;> rfl

@[simp] theorem move_nextIno : (w.move old new ino).nextIno = w.nextIno := by
  simp only [World.move, World.setBind]
  split <;> rfl

@[simp] theorem move_lock : (w.move old new ino).lock = w.lock := by
  simp only [World.move, World.setBind]
  split <;> rfl

@[simp] theorem move_log : (w.move old new ino).log = w.log := by
  simp only [World.move, World.setBind]
  split <;> rfl

theorem relink_kind (n : Nat) (f : Nat → Nat) (j : Nat) :
    ((w.relink n f).node j).kind = (w.node j).kind := by
  simp only [World.relink, World.setNode, update_apply]
  split
  · rename_i same
    rw [same]
  · rfl

theorem move_kind (j : Nat) : ((w.move old new ino).node j).kind = (w.node j).kind := by
  simp only [World.move, World.setBind]
  split
  · exact relink_kind w _ _ j
  · rfl

end Move

theorem Prior.refl (sound : w.Sound) : Prior w [] w :=
  ⟨⟨fun _ _ there => there, fun _ _ => rfl⟩, sound, Nat.le_refl _, fun _ _ => rfl⟩

variable {dirs : List Loc}

theorem Prior.create {e : Loc} (h : Prior w₀ dirs w) (absent : w.bind e = none) (known : e ∈ dirs)
    (n : Node) : Prior w₀ dirs (w.create e n none) := by
  refine ⟨⟨fun e' i there => ?_, fun i old => ?_⟩, fun e' i there => ?_, ?_, fun e' other => ?_⟩
  · have kept := h.entries e' i there
    refine (update_of_ne ?_ _ _).trans kept
    rintro rfl
    rw [absent] at kept
    cases kept
  · exact (update_of_ne (Nat.ne_of_lt (Nat.lt_of_lt_of_le old h.grown)) _ _).trans (h.nodes i old)
  · simp only [World.create, update_apply] at there ⊢
    split at there
    · cases there
      exact Nat.lt_succ_self _
    · exact Nat.lt_succ_of_lt (h.sound e' i there)
  · exact Nat.le_succ_of_le h.grown
  · refine (update_of_ne ?_ _ _).trans (h.only e' other)
    rintro rfl
    exact other known

theorem Prior.makeDirs (time : Int) {l : List Loc} (known : ∀ e ∈ l, e ∈ dirs) (h : Prior w₀ dirs w) :
    Prior w₀ dirs (World.makeDirs time w l) := by
  induction l generalizing w with
  | nil => exact h
  | cons e l ih =>
    rw [World.makeDirs]
    refine ih (fun e' mem => known e' (List.mem_cons_of_mem _ mem)) ?_
    split
    · rename_i absent
      exact h.create absent (known e List.mem_cons_self) _
    · exact h

theorem makeDirs_log (time : Int) (w : World ι) (l : List Loc) :
    (World.makeDirs time w l).log = w.log := by
  induction l generalizing w with
  | nil => rfl
  | cons e l ih =>
    rw [World.makeDirs, ih]
    split <;> rfl

theorem length_of_mem_above {e p : Loc} (mem : p ∈ World.above e) : p.length < e.length := by
  induction e generalizing p with
  | nil => simp [World.above] at mem
  | cons a e ih =>
    have shape : World.above (a :: e) = [] :: (World.above e).map (List.cons a) := by
      have nonempty : (e.inits.map (List.cons a)) ≠ [] := by cases e <;> simp
      rw [World.above, List.inits_cons, List.dropLast_cons_of_ne_nil nonempty, ← List.map_dropLast]
      rfl
    rw [shape] at mem
    rcases List.mem_cons.mp mem with rfl | deeper
    · simp
    · obtain ⟨q, inner, rfl⟩ := List.mem_map.mp deeper
      simpa using ih inner

theorem not_mem_above (e : Loc) : e ∉ World.above e := fun mem =>
  Nat.lt_irrefl _ (length_of_mem_above mem)

variable {place : Loc}

theorem Prior.stage (h : Prior w₀ dirs w) (free : w.bind place = none) {n : Node}
    (regular : n.kind = .regular) (owner : Option ι) (event : Event ι) :
    Staging w₀ dirs place w.nextIno ((w.create place n owner).note event) where
  entries e i there := by
    have kept := h.entries e i there
    refine (update_of_ne ?_ _ _).trans kept
    rintro rfl
    rw [free] at kept
    cases kept
  nodes i old :=
    (update_of_ne (Nat.ne_of_lt (Nat.lt_of_lt_of_le old h.grown)) _ _).trans (h.nodes i old)
  bound := update_self ..
  free := by
    cases there : w₀.bind place with
    | none => rfl
    | some i => rw [h.entries place i there] at free; cases free
  young := h.grown
  only e other ne := (update_of_ne ne _ _).trans (h.only e other)
  regular := by simpa [World.create, World.note] using regular

variable {ino : Nat}

theorem Staging.worked (h : Staging w₀ dirs place ino w) (worked : Worked ino w w') :
    Staging w₀ dirs place ino w' where
  entries := by rw [worked.bind]; exact h.entries
  nodes i old := (worked.others i (Nat.ne_of_lt (Nat.lt_of_lt_of_le old h.young))).trans (h.nodes i old)
  bound := by rw [worked.bind, h.bound]
  free := h.free
  young := h.young
  only := by rw [worked.bind]; exact h.only
  regular := worked.kind.trans h.regular

variable {dest : Loc}

section

variable (h : Staging w₀ dirs place ino w)

include h

/-- A name that was taken at the start is not the staging name. -/
theorem Staging.dest_ne (taken : w₀.bind dest ≠ none) : dest ≠ place := by
  rintro rfl
  exact taken h.free

/-- A name that is free is not the staging name. -/
theorem Staging.free_ne (free : w.bind dest = none) : dest ≠ place := by
  rintro rfl
  rw [h.bound] at free
  cases free

theorem Staging.free_start (free : w.bind dest = none) : w₀.bind dest = none := by
  cases there : w₀.bind dest with
  | none => rfl
  | some i => rw [h.entries dest i there] at free; cases free

/-- The staging name is given up. -/
theorem Staging.unbind (n : Node) :
    Kept w₀ ((w.setNode ino n).setBind place none) ∧
      ∀ e, e ∉ dirs → ((w.setNode ino n).setBind place none).bind e = w₀.bind e := by
  refine ⟨⟨fun e i there => ?_, fun i old => ?_⟩, fun e other => ?_⟩
  · refine (update_of_ne ?_ _ _).trans (h.entries e i there)
    rintro rfl
    rw [h.free] at there
    cases there
  · exact (update_of_ne (Nat.ne_of_lt (Nat.lt_of_lt_of_le old h.young)) _ _).trans (h.nodes i old)
  · by_cases same : e = place
    · subst same
      exact (update_self ..).trans h.free.symm
    · exact (update_of_ne same _ _).trans (h.only e other same)

/-- A free name is taken as well. -/
theorem Staging.bindAlso (free : w.bind dest = none) (n : Node) :
    Kept w₀ (((w.setNode ino n).setBind dest (some ino)).setBind place none) := by
  refine ⟨fun e i there => ?_, fun i old => ?_⟩
  · have other : e ≠ place := h.dest_ne (by rw [there]; simp)
    have old : e ≠ dest := by
      rintro rfl
      rw [h.free_start free] at there
      cases there
    exact (update_of_ne other _ _).trans ((update_of_ne old _ _).trans (h.entries e i there))
  · exact (update_of_ne (Nat.ne_of_lt (Nat.lt_of_lt_of_le old h.young)) _ _).trans (h.nodes i old)

end

end States

variable {inPlace : Bool}

section Publication

variable {ι : Type} [DecidableEq ι] (names : Names) (me : ι) {w₀ w : World ι} {dirs : List Loc}
  {stagedPath destPath : Bytes} {ino : Nat}

/-- In place the replaced file is older than the staging file. -/
theorem rename_leads (h : Staging w₀ dirs (names.entry stagedPath) ino w) (sound : w₀.Sound)
    (taken : w₀.bind (names.entry destPath) ≠ none) :
    Leads (step names me) (rename stagedPath destPath)
      (fun r w' => (r = none → Placed (names.entry destPath) (names.entry stagedPath) ino w w') ∧
        (r ≠ none → w' = w)) w := by
  refine leads_cmd.mpr fun x => ?_
  obtain ⟨there, found⟩ := Option.ne_none_iff_exists'.mp taken
  have now : w.bind (names.entry destPath) = some there := h.entries _ _ found
  have older : there ≠ ino := Nat.ne_of_lt (Nat.lt_of_lt_of_le (sound _ _ found) h.young)
  cases failed : x.errno with
  | some n => simp [step, failed]
  | none =>
    simp only [step, failed, h.bound, now, if_neg older]
    split
    · simp
    · refine ⟨fun _ => ⟨?_, ?_, ⟨(w.node ino).nlink, ?_⟩, fun e other staging => ?_, fun i => ?_, me, some there, ?_⟩,
        by simp⟩
      · exact move_bind_new w (h.dest_ne taken)
      · exact move_bind_old w
      · simp only [World.note, World.move, now, World.setBind, World.relink, World.setNode]
        rw [update_of_ne (Ne.symm older)]
      · exact move_bind_other w staging other
      · exact move_kind (names.entry stagedPath) (names.entry destPath) ino w i
      · simp [World.note]

theorem renameNoReplace_step (destPath : Bytes) (h : Staging w₀ dirs (names.entry stagedPath) ino w) (x : Choice) :
    ((step names me w (.renameNoReplace stagedPath destPath) x).2 = none →
      Kept w₀ (step names me w (.renameNoReplace stagedPath destPath) x).1 ∧
        Placed (names.entry destPath) (names.entry stagedPath) ino w
          (step names me w (.renameNoReplace stagedPath destPath) x).1) ∧
    ((step names me w (.renameNoReplace stagedPath destPath) x).2 ≠ none →
      (step names me w (.renameNoReplace stagedPath destPath) x).1 = w) := by
  cases failed : x.errno with
  | some n => simp [step, failed]
  | none =>
    cases free : w.bind (names.entry destPath) with
    | some there => simp [step, failed, h.bound, free]
    | none =>
      simp only [step, failed, h.bound, free, World.move]
      have same : w.setNode ino (w.node ino) = w := by simp [World.setNode]
      refine ⟨fun _ => ⟨?_, ⟨?_, ?_, ⟨(w.node ino).nlink, rfl⟩, fun e other staging => ?_, fun _ => rfl, me, none, rfl⟩⟩,
        by simp⟩
      · have kept := h.bindAlso free (w.node ino)
        rw [same] at kept
        exact ⟨kept.entries, kept.nodes⟩
      · simp only [World.note, World.setBind]
        rw [update_of_ne (h.free_ne free), update_self]
      · simp [World.note, World.setBind]
      · exact (update_of_ne staging _ _).trans (update_of_ne other _ _)

theorem link_step (destPath : Bytes) (h : Staging w₀ dirs (names.entry stagedPath) ino w) (x : Choice) :
    ((step names me w (.link stagedPath destPath) x).2 = none → w.bind (names.entry destPath) = none ∧
      (step names me w (.link stagedPath destPath) x).1 =
        ((w.relink ino (· + 1)).setBind (names.entry destPath) (some ino)).note
          (.published me (names.entry destPath) none ino)) ∧
    ((step names me w (.link stagedPath destPath) x).2 ≠ none →
      (step names me w (.link stagedPath destPath) x).1 = w) := by
  cases failed : x.errno with
  | some n => simp [step, failed]
  | none => cases free : w.bind (names.entry destPath) <;> simp [step, failed, h.bound, free]

section

variable (h : Staging w₀ dirs (names.entry stagedPath) ino w)

include h

/-- The staging name is dropped after the link. -/
theorem linked_remove (free : w.bind (names.entry destPath) = none) (x : Choice) {u : World ι}
    (linked : u = ((w.relink ino (· + 1)).setBind (names.entry destPath) (some ino)).note
      (.published me (names.entry destPath) none ino)) :
    Kept w₀ (step names me u (.remove stagedPath) x).1 ∧
      Placed (names.entry destPath) (names.entry stagedPath) ino w
        (step names me u (.remove stagedPath) x).1 := by
  have other := h.free_ne free
  have bound : u.bind (names.entry stagedPath) = some ino := by
    rw [linked]
    exact (update_of_ne (Ne.symm other) _ _).trans h.bound
  subst linked
  simp only [step, bound]
  refine ⟨?_, ?_, ?_, ⟨(w.node ino).nlink, ?_⟩, fun e other staging => ?_, fun i => ?_, me, none, rfl⟩
  · have kept := h.bindAlso free (w.node ino)
    refine ⟨kept.entries, fun i old => ?_⟩
    have ne := Nat.ne_of_lt (Nat.lt_of_lt_of_le old h.young)
    simp only [World.relink, World.setNode, World.setBind, World.note]
    rw [update_of_ne ne, update_of_ne ne]
    exact h.nodes i old
  · simp only [World.relink, World.setNode, World.setBind, World.note]
    rw [update_of_ne other, update_self]
  · simp [World.setBind]
  · simp [World.relink, World.setNode, World.setBind, World.note]
  · exact (update_of_ne staging _ _).trans (update_of_ne other _ _)
  · simp only [World.setBind, World.note, relink_kind]

/-- A new name is only ever taken when it is free. -/
theorem publishCreateOnly_leads :
    Leads (step names me) (publishCreateOnly stagedPath destPath)
      (fun r w' => (r = none → Kept w₀ w' ∧
          Placed (names.entry destPath) (names.entry stagedPath) ino w w') ∧
        (r ≠ none → w' = w)) w := by
  refine leads_call fun x => ?_
  obtain ⟨moved, unmoved⟩ := renameNoReplace_step names me destPath h x
  cases reply : (step names me w (.renameNoReplace stagedPath destPath) x).2 with
  | none => exact ⟨fun _ => moved reply, by simp⟩
  | some n =>
    rw [unmoved (by simp [reply])]
    dsimp only
    split
    · simp
    · split
      · refine leads_call fun y => ?_
        obtain ⟨linked, unlinked⟩ := link_step names me destPath h y
        cases reply : (step names me w (.link stagedPath destPath) y).2 with
        | none =>
          obtain ⟨free, after⟩ := linked reply
          exact leads_call fun z => ⟨fun _ => linked_remove names me h free z after, by simp⟩
        | some n =>
          rw [unlinked (by simp [reply])]
          simp
      · simp

/-- What a publication does, in place or not. -/
theorem publishTransaction_leads (sound : w₀.Sound)
    (taken : inPlace = true → w₀.bind (names.entry destPath) ≠ none) (snap : Snapshot) (breakHardlinks : Bool) :
    Leads (step names me) (publishTransaction inPlace stagedPath destPath snap breakHardlinks)
      (fun r w' => (r = none → (inPlace = false → Kept w₀ w') ∧
          Placed (names.entry destPath) (names.entry stagedPath) ino w w') ∧
        (r ≠ none → w' = w)) w := by
  rw [publishTransaction]
  split
  · rename_i replaces
    refine leads_look names me trivial fun x => ?_
    rcases (step names me w (.stat destPath) x).2 with n | fi
    · simp
    · dsimp only
      split
      · simp
      · refine leads_seq (rename_leads names me h sound (taken replaces)) ?_
        rintro (_ | n) w' ⟨placed, same⟩
        · exact ⟨fun _ => ⟨by simp [replaces], placed rfl⟩, by simp⟩
        · exact ⟨by simp, fun _ => same (by simp)⟩
  · refine leads_mono (publishCreateOnly_leads names me h) ?_
    rintro r w' ⟨placed, same⟩
    exact ⟨fun fine => ⟨fun _ => (placed fine).1, (placed fine).2⟩, same⟩

end

theorem discard_leads {staged : Staged} (h : Staging w₀ dirs (names.entry staged.path) staged.ino w)
    (err : Err) :
    Leads (step names me) (discard staged err)
      (fun r w' => r = some err ∧ Kept w₀ w' ∧ (∀ e, e ∉ dirs → w'.bind e = w₀.bind e) ∧
        w'.bind (names.entry staged.path) = none ∧ w'.log = w.log) w := by
  refine leads_look names me trivial fun _ => leads_call fun _ => ?_
  obtain ⟨kept, only⟩ := h.unbind { w.node staged.ino with nlink := (w.node staged.ino).nlink - 1 }
  simp only [step, h.bound]
  exact ⟨rfl, ⟨kept.entries, kept.nodes⟩, only, update_self .., rfl⟩

end Publication

/-! ## The transaction -/

section Transact

variable {ι : Type} [DecidableEq ι] (names : Names) (me : ι) (R : MapRange)

/-- The destination holds the transformed content, which was read back. -/
structure Done (destPath : Bytes) (snap : Snapshot) (policy : Policy) (w : World ι) : Prop where
  file : ∃ ino, w.bind (names.entry destPath) = some ino ∧ (w.node ino).kind = .regular ∧
    contentsOf w.log = [(w.node ino).content] ∧
    checkStagedInfo ((w.node ino).info ino) (targetMode snap policy) snap policy = none

/-- How a transaction ends. -/
structure Transacted (w₀ : World ι) (destPath : Bytes) (inPlace : Bool) (snap : Snapshot)
    (policy : Policy) (w : World ι) (r : Option Err) (w' : World ι) : Prop where
  failed : ∀ err, r = some err → ¬ Durability err → Kept w₀ w' ∧
    ∀ e, e ∉ World.above (names.entry destPath) → w'.bind e = w₀.bind e
  published : (∀ err, r = some err → Durability err) → Done names destPath snap policy w'
  unstaged : ∀ e ∈ stagingsOf w'.log, w'.bind e = none
  createOnly : inPlace = false → Kept w₀ w'
  placed : (∀ err, r = some err → Durability err) → ∃ place ino u,
    Staging w₀ (World.above (names.entry destPath)) place ino u ∧ Placed (names.entry destPath) place ino u w'
  targets : targetsOf w'.log = targetsOf w.log
  grown : w.log <:+ w'.log

variable {destPath : Bytes} {snap : Snapshot} {policy : Policy}

variable {w₀ w w' : World ι}

omit [DecidableEq ι] in
/-- A way out before the publication. -/
theorem Transacted.early {err : Err} (early : Early (some err)) (kept : Kept w₀ w')
    (only : ∀ e, e ∉ World.above (names.entry destPath) → w'.bind e = w₀.bind e)
    (unstaged : ∀ e ∈ stagingsOf w'.log, w'.bind e = none)
    (targets : targetsOf w'.log = targetsOf w.log) (grown : w.log <:+ w'.log) :
    Transacted names w₀ destPath inPlace snap policy w (some err) w' where
  failed _ _ _ := ⟨kept, only⟩
  published all := absurd (all err rfl) (early err rfl)
  unstaged := unstaged
  createOnly _ := kept
  placed all := absurd (all err rfl) (early err rfl)
  targets := targets
  grown := grown

section

variable (tx : Transaction) (policy : Policy) (snap : Snapshot) (destPath : Bytes)

theorem transactStaged_leads (staged : Staged) (sound : w₀.Sound)
    (taken : inPlace = true → w₀.bind (names.entry destPath) ≠ none)
    (staging : Staging w₀ (World.above (names.entry destPath)) (names.entry staged.path) staged.ino w)
    (one : stagingsOf w.log = [names.entry staged.path]) (unwritten : contentsOf w.log = []) :
    Leads (step names me) (transactStaged R tx policy snap destPath inPlace staged)
      (Transacted names w₀ destPath inPlace snap policy w) w := by
  -- giving the staging file up, after any part of the work on it
  have discarded : ∀ (u : World ι) (err : Err), Worked staged.ino w u → Early (some err) →
      Leads (step names me) (discard staged err) (Transacted names w₀ destPath inPlace snap policy w) u := by
    intro u err worked early
    refine leads_mono (discard_leads names me (staging.worked worked) err) ?_
    rintro r w' ⟨rfl, kept, only, gone, log⟩
    refine .early names early kept only ?_ (by rw [log, worked.targets]) (log ▸ worked.grown)
    rw [log, worked.stagings, one]
    simpa using gone
  refine leads_seq (leads_returns (prepare_early R staged snap policy)
    (prepare_leads names me R staged snap policy w)) ?_
  rintro (_ | err) w₁ ⟨early, worked, ready⟩
  rotate_left
  · exact discarded w₁ err worked early
  have staging₁ := staging.worked worked
  refine leads_seq (leads_returns (publishTransaction_early inPlace staged.path destPath snap tx.breakHardlinks)
    (publishTransaction_leads names me staging₁ sound taken snap tx.breakHardlinks)) ?_
  rintro (_ | err) w₂ ⟨early, placed, same⟩
  rotate_left
  · rw [same (by simp)]
    exact discarded w₁ err worked early
  obtain ⟨kept, moved⟩ := placed rfl
  have ⟨bound, gone, ⟨nlink, node⟩, _, _, run, replaced, log⟩ := moved
  obtain ⟨content, checked⟩ := ready rfl
  have done : Done names destPath snap policy w₂ := by
    refine ⟨staged.ino, bound, ?_, ?_, ?_⟩
    · rw [node]
      exact staging₁.regular
    · rw [node, log]
      exact content.trans (by rw [unwritten])
    · rw [node]
      exact checked
  have finished : ∀ r, (∀ err, r = some err → Durability err) →
      Transacted names w₀ destPath inPlace snap policy w r w₂ := by
    intro r durable
    refine ⟨fun err failed early => absurd (durable err failed) early, fun _ => done, ?_, kept,
      fun _ => ⟨_, _, w₁, staging₁, moved⟩, ?_, ?_⟩
    · rw [log]
      have stagings : stagingsOf (Event.published run (names.entry destPath) replaced staged.ino :: w₁.log) =
          [names.entry staged.path] := worked.stagings.trans one
      rw [stagings]
      simpa using gone
    · rw [log]
      exact worked.targets
    · rw [log]
      exact worked.grown.trans (List.suffix_cons _ _)
  refine leads_look names me trivial fun x => ?_
  rcases (step names me w₂ (.syncDirectory (dirPath destPath)) x).2 with _ | n
  · exact finished none (by simp)
  · exact finished _ (by rintro _ ⟨⟩; exact ⟨_, n, rfl⟩)

/-- Making directories touches nothing that is there. -/
theorem mkdirAll_leads (destDir destPath : Bytes) (prior : Prior w₀ [] w) :
    Leads (step names me) (mkdirAll destDir destPath)
      (fun _ w' => Prior w₀ (World.above (names.entry destPath)) w' ∧ w'.log = w.log) w := by
  have weaker : Prior w₀ (World.above (names.entry destPath)) w :=
    ⟨prior.toKept, prior.sound, prior.grown, fun e _ => prior.only e (by simp)⟩
  refine leads_cmd.mpr fun x => ?_
  simp only [step]
  split
  · exact ⟨weaker, rfl⟩
  · split
    · exact ⟨weaker.makeDirs _ fun e mem => List.mem_of_mem_take mem, makeDirs_log _ _ _⟩
    · exact ⟨weaker.makeDirs _ fun e mem => mem, makeDirs_log _ _ _⟩

theorem transact_leads (sound : w₀.Sound) (prior : Prior w₀ [] w)
    (taken : inPlace = true → w₀.bind (names.entry destPath) ≠ none) (unstaged : stagingsOf w.log = [])
    (unwritten : contentsOf w.log = []) :
    Leads (step names me) (transact R tx policy snap destPath inPlace)
      (Transacted names w₀ destPath inPlace snap policy w) w := by
  have noStaging : ∀ u : World ι, u.log = w.log → ∀ e ∈ stagingsOf u.log, u.bind e = none := by
    intro u same e mem
    rw [same, unstaged] at mem
    cases mem
  refine leads_seq (mkdirAll_leads names me (dirPath destPath) destPath prior) ?_
  rintro (_ | n) w₁ ⟨prior₁, log₁⟩
  rotate_left
  · exact .early names (early_message (by decide)) prior₁.toKept prior₁.only (noStaging w₁ log₁)
      (by rw [log₁]) (by rw [log₁])
  refine leads_call fun x => ?_
  simp only [step]
  cases failed : x.errno with
  | some n =>
    exact .early names (early_wrapping (by decide)) prior₁.toKept prior₁.only (noStaging w₁ log₁)
      (by rw [log₁]) (by rw [log₁])
  | none =>
  cases free : w₁.bind (names.entry (tempPath (dirPath destPath) x.random)) with
  | some there =>
    exact .early names (early_wrapping (by decide)) prior₁.toKept prior₁.only (noStaging w₁ log₁)
      (by rw [log₁]) (by rw [log₁])
  | none =>
    have staging := prior₁.stage free (n := ⟨.regular, [], 0o600, 0, 0, [], x.time, 1⟩) rfl (some me)
      (.staged me (names.entry (tempPath (dirPath destPath) x.random)) w₁.nextIno)
    refine leads_mono (transactStaged_leads names me R tx policy snap destPath ⟨_, _⟩ sound taken
      staging ?_ ?_) ?_
    · simp [World.note, World.create, stagingsOf, log₁] at unstaged ⊢
      exact unstaged
    · simpa [World.note, World.create, contentsOf, log₁] using unwritten
    · intro r w' done
      have targets : targetsOf w'.log = targetsOf w.log := by
        rw [done.targets]
        simp [World.note, World.create, targetsOf, log₁]
      have grown : w.log <:+ w'.log := by
        refine List.IsSuffix.trans ?_ done.grown
        simp [World.note, World.create, log₁]
      exact { done with targets := targets, grown := grown }

end

/-! ## The whole run -/

/-- The snapshot is recorded, and nothing else happens before the target is known. -/
theorem takeSourceSnapshot_leads (f : Option Nat) (path : Bytes) (w : World ι) :
    Leads (step names me) (takeSourceSnapshot f path)
      (fun r w' => (∀ snap, r = .ok snap → w' = w.note (.snapshot me snap.ino)) ∧
        (∀ err, r = .error err → w' = w)) w := by
  -- the two cases differ in the calls only
  cases f
  all_goals
    refine leads_look names me trivial fun x => ?_
    split
    · simp
    · refine leads_look names me trivial fun y => ?_
      split
      · simp
      · refine leads_call fun _ => ⟨?_, by simp⟩
        rintro _ ⟨⟩
        rfl

/-- A destination that is the source by its text, its links resolved to `realSrc`. -/
def ByText (tx : Transaction) (realSrc : Bytes) : Prop :=
  tx.destPath = [] ∨ cleanPath tx.destPath = cleanPath tx.srcPath ∨ cleanPath tx.destPath = realSrc

/-- The destination a replacement settles on. -/
def Settles (tx : Transaction) (realSrc destPath : Bytes) : Prop :=
  ByText tx realSrc ∧ destPath = realSrc ∨ ¬ ByText tx realSrc ∧ destPath = cleanPath tx.destPath

theorem replaceTarget_settles (tx : Transaction) (snap : Snapshot) (realSrc : Bytes) :
    (replaceTarget tx snap (cleanPath tx.srcPath) realSrc).Returns
      fun r => ∀ destPath, r = .ok destPath → Settles tx realSrc destPath := by
  rw [replaceTarget]
  split
  · rename_i default
    rintro _ ⟨⟩
    simp only [Bool.or_eq_true, decide_eq_true_eq, or_assoc] at default
    exact .inl ⟨default, rfl⟩
  · rename_i other
    simp only [Bool.or_eq_true, decide_eq_true_eq, or_assoc] at other
    refine Prog.obeys_call trivial ?_
    rintro (n | fi)
    · rintro _ ⟨⟩
    · intro destPath same
      split at same
      · cases same
      · cases same
        exact .inr ⟨other, rfl⟩

section

variable {kernel : World ι → (c : Call) → Choice → World ι × c.Reply}

/-- What `EvalSymlinks` makes of the source path. -/
def resolvedBy (kernel : World ι → (c : Call) → Choice → World ι × c.Reply) (tx : Transaction) (w : World ι)
    (x : Choice) : Bytes :=
  (kernel w (.evalSymlinks (cleanPath tx.srcPath)) x).2.toOption.getD (cleanPath tx.srcPath)

variable (kernel) in
/-- The target of a request: in place, or the destination it names. -/
structure Resolved (tx : Transaction) (w w' : World ι) (snap : Snapshot) (destPath : Bytes)
    (inPlace : Bool) : Prop where
  world : w' = w.note (.snapshot me snap.ino)
  createOnly : tx.intent = .createOnly → inPlace = false ∧ destPath = cleanPath tx.destPath
  replaces : tx.intent = .replaceSource → inPlace = true ∧ ∃ x, Settles tx (resolvedBy kernel tx w' x) destPath

theorem resolveTargetAndSnapshot_leads (within : ∀ w c y, ∃ x, kernel w c y = step names me w c x)
    (tx : Transaction) (policy : Policy) (w : World ι) :
    Leads kernel (resolveTargetAndSnapshot R tx policy)
      (fun r w' => (∀ err, r = .error err → w' = w ∨ ∃ ino, w' = w.note (.snapshot me ino)) ∧
        ∀ snap destPath inPlace, r = .ok (snap, destPath, inPlace) →
          Resolved me kernel tx w w' snap destPath inPlace) w := by
  refine leads_seq ((takeSourceSnapshot_leads names me tx.srcFile (cleanPath tx.srcPath) w).narrow within) ?_
  rintro (err | snap) w₁ ⟨taken, failed⟩
  · exact ⟨fun _ _ => .inl (failed err rfl), by simp⟩
  have world := taken snap rfl
  have recorded : w₁ = w ∨ ∃ ino, w₁ = w.note (.snapshot me ino) := .inr ⟨snap.ino, world⟩
  dsimp only
  split
  · exact ⟨fun _ _ => recorded, by simp⟩
  · refine Theory.leads_look (fun y => ?_) ?_
    · obtain ⟨x, same⟩ := within w₁ (.evalSymlinks (cleanPath tx.srcPath)) y
      rw [same]
      rfl
    rintro x _ rfl
    refine leads_seq ((leads_looks names me (checkDescriptor_early tx snap _) w₁).narrow within) ?_
    rintro (_ | err) _ rfl
    rotate_left
    · exact ⟨fun _ _ => recorded, by simp⟩
    dsimp only
    split
    · rename_i replace
      refine leads_seq (leads_returns (replaceTarget_settles tx snap _)
        ((leads_looks names me (replaceTarget_early tx snap _ _) _).narrow within)) ?_
      rintro (err | destPath) _ ⟨settles, rfl⟩
      · exact ⟨fun _ _ => recorded, by simp⟩
      · dsimp only
        split
        · exact ⟨fun _ _ => recorded, by simp⟩
        · refine ⟨by simp, ?_⟩
          rintro _ _ _ ⟨⟩
          exact ⟨world, by simp [replace], fun _ => ⟨rfl, x, settles destPath rfl⟩⟩
    · rename_i createOnly
      refine ⟨by simp, ?_⟩
      rintro _ _ _ ⟨⟩
      exact ⟨world, by simp, by simp [createOnly]⟩
    · rename_i text other
      refine ⟨by simp, ?_⟩
      rintro _ _ _ ⟨⟩
      exact ⟨world, by simp [other], by simp [other]⟩

end

/-- The target is the one the request asks for: the destination it names, or where its source
path leads. -/
structure Requested (tx : Transaction) (path : Bytes) : Prop where
  createOnly : tx.intent = .createOnly → path = cleanPath tx.destPath
  replaces : tx.intent = .replaceSource → ∃ realSrc,
    (realSrc = cleanPath tx.srcPath ∨ names.evalSymlinks (cleanPath tx.srcPath) = .ok realSrc) ∧
      Settles tx realSrc path

theorem Resolved.requested {tx : Transaction} {snap : Snapshot} {inPlace : Bool}
    (h : Resolved me (step names me) tx w w' snap destPath inPlace) : Requested names tx destPath := by
  refine ⟨fun intent => (h.createOnly intent).2, fun intent => ?_⟩
  obtain ⟨-, x, settles⟩ := h.replaces intent
  refine ⟨_, ?_, settles⟩
  simp only [resolvedBy, step]
  cases x.errno with
  | some n => exact .inl rfl
  | none =>
    cases names.evalSymlinks (cleanPath tx.srcPath) with
    | error n => exact .inl rfl
    | ok path => exact .inr rfl

/-- How a run ends: as if it had not happened, or with the destination done. -/
structure AllOrNothing [CaseTable] (tx : Transaction) (w : World ι) (r : Option Err) (w' : World ι) : Prop where
  failed : ∀ err, r = some err → ¬ Durability err → Kept w w' ∧
    (∀ e, w'.bind e = w.bind e ∨ ∃ path ∈ targetsOf w'.log, e ∈ World.above (names.entry path)) ∧
    ∀ path ∈ targetsOf w'.log, w'.bind (names.entry path) = w.bind (names.entry path)
  published : (∀ err, r = some err → Durability err) → ∃ destPath snap policy,
    targetsOf w'.log = [destPath] ∧ Event.snapshot me snap.ino ∈ w'.log ∧
    parsePolicy tx.policy = .ok policy ∧ Done names destPath snap policy w'
  unstaged : ∀ e ∈ stagingsOf w'.log, w'.bind e = none
  createOnly : tx.intent = .createOnly → Kept w w' ∧ ∀ path ∈ targetsOf w'.log, path = cleanPath tx.destPath
  requested : ∀ path ∈ targetsOf w'.log, Requested names tx path

omit [DecidableEq ι] in
/-- A run that has touched nothing. -/
theorem AllOrNothing.idle [CaseTable] {tx : Transaction} {err : Err} (early : Early (some err))
    (bind : w'.bind = w.bind) (node : w'.node = w.node) (stagings : stagingsOf w'.log = [])
    (requested : ∀ path ∈ targetsOf w'.log, Requested names tx path) :
    AllOrNothing names me tx w (some err) w' := by
  have kept : Kept w w' := ⟨fun e i there => by rw [bind, there], fun i _ => by rw [node]⟩
  exact
    { failed := fun _ _ _ => ⟨kept, fun e => .inl (by rw [bind]), fun path _ => by rw [bind]⟩
      published := fun all => absurd (all err rfl) (early err rfl)
      unstaged := by simp [stagings]
      createOnly := fun intent => ⟨kept, fun path mem => (requested path mem).createOnly intent⟩
      requested := requested }

omit [DecidableEq ι] in
theorem Transacted.allOrNothing [CaseTable] {tx : Transaction} {r : Option Err}
    (h : Transacted names w₀ destPath inPlace snap policy w r w')
    (parsed : parsePolicy tx.policy = .ok policy) (target : targetsOf w.log = [destPath])
    (snapped : Event.snapshot me snap.ino ∈ w.log)
    (outOfPlace : tx.intent = .createOnly → inPlace = false) (requested : Requested names tx destPath) :
    AllOrNothing names me tx w₀ r w' := by
  have targets : targetsOf w'.log = [destPath] := h.targets.trans target
  have asked : ∀ path ∈ targetsOf w'.log, Requested names tx path := by
    intro path mem
    rw [targets, List.mem_singleton] at mem
    exact mem ▸ requested
  refine ⟨fun err failed early => ?_, fun all => ?_, h.unstaged, fun createOnly => ?_, asked⟩
  · obtain ⟨kept, only⟩ := h.failed err failed early
    refine ⟨kept, fun e => ?_, fun path mem => ?_⟩
    · by_cases above : e ∈ World.above (names.entry destPath)
      · exact .inr ⟨destPath, by simp [targets], above⟩
      · exact .inl (only e above)
    · rw [targets, List.mem_singleton] at mem
      rw [mem]
      exact only _ (not_mem_above _)
  · exact ⟨destPath, snap, policy, targets, h.grown.subset snapped, parsed, h.published all⟩
  · exact ⟨h.createOnly (outOfPlace createOnly), fun path mem => (asked path mem).createOnly createOnly⟩

/-- A locked destination is there. -/
theorem acquireAdvisoryLock_leads (path : Bytes) (w : World ι) :
    Leads (step names me) (acquireAdvisoryLock path)
      (fun r w' => (∀ err, r = .error err → w' = w) ∧ (∀ ino, r = .ok ino →
        w' = { w with lock := update w.lock ino (some me) } ∧
          w.bind (names.entry path) ≠ none)) w := by
  refine leads_look names me trivial fun x => ?_
  cases opened : (step names me w (.openRead path) x).2 with
  | error n => simp
  | ok ino =>
    have there : w.bind (names.entry path) ≠ none := by
      intro absent
      cases failed : x.errno <;> simp [step, failed, World.follow, absent] at opened
    refine leads_call fun y => ?_
    cases held : w.lock ino with
    | some other => simp [step, held]
    | none =>
      cases failed : y.errno with
      | some n => simp [step, held, failed]
      | none =>
        simp only [step, held, failed]
        refine ⟨by simp, ?_⟩
        rintro _ ⟨⟩
        exact ⟨rfl, there⟩

omit [DecidableEq ι] in
theorem Transacted.relock {r : Option Err} (h : Transacted names w₀ destPath inPlace snap policy w r w')
    (lock : Nat → Option ι) :
    Transacted names w₀ destPath inPlace snap policy w r { w' with lock := lock } where
  failed err failed early :=
    let ⟨kept, only⟩ := h.failed err failed early
    ⟨⟨kept.entries, kept.nodes⟩, only⟩
  published all := ⟨(h.published all).file⟩
  unstaged := h.unstaged
  createOnly out := ⟨(h.createOnly out).entries, (h.createOnly out).nodes⟩
  placed all :=
    let ⟨place, ino, u, staging, placed⟩ := h.placed all
    ⟨place, ino, u, staging, { placed with }⟩
  targets := h.targets
  grown := h.grown

theorem execute_leads [CaseTable] (tx : Transaction) (sound : w.Sound) (fresh : w.log = []) :
    Leads (step names me) (execute R tx) (AllOrNothing names me tx w) w := by
  have refused : ∀ err, Early (some err) → AllOrNothing names me tx w (some err) w := by
    intro err early
    exact .idle names me early rfl rfl (by simp [fresh, stagingsOf]) (by simp [fresh, targetsOf])
  rw [execute]
  split
  · exact refused _ (early_new _)
  split
  · exact refused _ (early_new _)
  split
  · exact refused _ (early_about _ _)
  split
  · exact refused _ (early_new _)
  cases parsed : parsePolicy tx.policy with
  | error err => exact refused err (parsePolicy_early parsed)
  | ok policy =>
  refine leads_seq (leads_returns (resolveTargetAndSnapshot_early R tx policy)
    (resolveTargetAndSnapshot_leads names me R (fun _ _ x => ⟨x, rfl⟩) tx policy w)) ?_
  rintro (err | ⟨snap, destPath, inPlace⟩) w₁ ⟨early, failed, target⟩
  · rcases failed err rfl with rfl | ⟨ino, rfl⟩
    · exact refused err (early err rfl)
    · exact .idle names me (early err rfl) rfl rfl (by simp [fresh, stagingsOf, World.note])
        (by simp [fresh, targetsOf, World.note])
  have requested := (target snap destPath inPlace rfl).requested names me
  obtain ⟨rfl, createOnly, -⟩ := target snap destPath inPlace rfl
  refine leads_call fun _ => ?_
  have noStagings : stagingsOf ((w.note (.snapshot me snap.ino)).note (.target me destPath)).log = [] := by
    simp [fresh, stagingsOf, World.note]
  have target : targetsOf ((w.note (.snapshot me snap.ino)).note (.target me destPath)).log = [destPath] := by
    simp [fresh, targetsOf, World.note]
  have noContents : contentsOf ((w.note (.snapshot me snap.ino)).note (.target me destPath)).log = [] := by
    simp [fresh, contentsOf, World.note]
  have snapped : Event.snapshot me snap.ino ∈
      ((w.note (.snapshot me snap.ino)).note (.target me destPath)).log := by simp [World.note]
  have prior : ∀ lock, Prior w [] { (w.note (.snapshot me snap.ino)).note (.target me destPath) with lock } := by
    have start := Prior.refl sound
    exact fun _ => ⟨⟨start.entries, start.nodes⟩, start.sound, start.grown, start.only⟩
  split
  · rename_i inPlace
    refine leads_seq (leads_returns (acquireAdvisoryLock_early destPath)
      (acquireAdvisoryLock_leads names me destPath _)) ?_
    rintro (err | ino) w₂ ⟨early, failed, locked⟩
    · rw [failed err rfl]
      refine .idle names me (early err rfl) rfl rfl noStagings fun path mem => ?_
      have named : path ∈ [destPath] := target ▸ mem
      exact List.mem_singleton.mp named ▸ requested
    · obtain ⟨rfl, taken⟩ := locked ino rfl
      refine leads_seq (transact_leads names me R tx policy snap destPath sound (prior _) (fun _ => taken)
        noStagings noContents) ?_
      intro r w' done
      refine leads_call fun _ => ?_
      have replaces : tx.intent ≠ .createOnly := fun intent => by simp [createOnly intent] at inPlace
      simp only [step]
      split
      · exact (done.relock names _).allOrNothing names me parsed target snapped
          (fun intent => absurd intent replaces) requested
      · exact done.allOrNothing names me parsed target snapped (fun intent => absurd intent replaces) requested
  · rename_i outOfPlace
    refine leads_mono (transact_leads names me R tx policy snap destPath sound (prior _) (by simp)
      noStagings noContents) fun r w' done => ?_
    exact done.allOrNothing names me parsed target snapped (fun _ => rfl) requested

/-- **A transaction happens or it does not**: whatever its calls return, a run that
reports an error other than the one after the publication leaves everything that
was there as it was and the destination in its prior state; a run that reports
success or that error has published what the callback wrote and the readback
accepted, under the name the request asks for; no staging name is left; and a new file never replaces anything. -/
theorem execute_all_or_nothing [CaseTable] (tx : Transaction) (w w' : World ι) (outcomes : List Choice)
    (r : Option Err) (sound : w.Sound) (fresh : w.log = [])
    (ran : (execute R tx).runWith (step names me) w outcomes = some (r, w')) :
    AllOrNothing names me tx w r w' :=
  (execute_leads names me R tx sound fresh).outcome ran

end Transact

/-! ## One file -/

/-- Paths without symbolic links. -/
def plainNames : Names := ⟨fun path => (splitSlash path).filter (· ≠ []), .ok⟩

def oneFile : World Unit where
  bind e := if e = [lit "bin"] then some 0 else if e = [lit "bin", lit "app"] then some 1 else none
  node i := if i = 0 then World.directory 1 else ⟨.regular, lit "old", 0o755, 7, 7, [], 2, 1⟩
  nextIno := 2
  lock _ := none
  creator _ := none
  log := []

theorem oneFile_sound : oneFile.Sound := by
  intro e i there
  simp only [oneFile] at there ⊢
  split at there
  · cases there
    decide
  · split at there
    · cases there
      decide
    · cases there

def replaceApp : Transaction := ⟨lit "/bin/app", none, [], .replaceSource, [], false, true⟩

/-- Every call succeeds, and the callback writes a new content. -/
def fineChoice : Choice := ⟨none, 0, 3, lit "new", none, 2 ^ 24 - 1, 5, []⟩

section

local instance atomicTable : CaseTable := CaseTable.ascii

theorem execute_all_or_nothing_replace : ∃ w', (execute .inserted replaceApp).runWith (step plainNames ())
      oneFile (List.replicate 30 fineChoice) = some (none, w') ∧
    AllOrNothing plainNames () replaceApp oneFile none w' := by
  have succeeds : (((execute .inserted replaceApp).runWith (step plainNames ()) oneFile
      (List.replicate 30 fineChoice)).any fun r => r.1.isNone) = true := by decide +kernel
  rw [Option.any_eq_true] at succeeds
  obtain ⟨⟨result, w'⟩, ran, done⟩ := succeeds
  obtain rfl := Option.isNone_iff_eq_none.mp done
  exact ⟨w', ran, execute_all_or_nothing plainNames () .inserted replaceApp oneFile w' _ none oneFile_sound rfl ran⟩

end

end Microfat.Lifecycle
