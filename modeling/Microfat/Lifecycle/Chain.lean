/-
# Microfat.Lifecycle.Chain — concurrent replacements of one file

Any number of runs replace the file at one entry, interleaved call by call.  Each
takes a snapshot, opens and locks whatever file is there by then, and compares
once more before its rename.

* `Inv`: what was ever published at the entry, newest first, is a chain that starts
  at the first file, and no file appears twice;
* `Moves`: what some of the runs may do to the world, read as the guarantee of one
  run and as the rely of the others;
* `Seen`, `Opened`, `Locked`, `HasStaged`, `Matched`: what a run knows after each of its steps.
  A file that has left the entry never comes back (`Moves.returns`), so a run
  that finds its snapshot there after it took the lock has locked that very file;
* `Matched.publish`: the rename of such a run is a move the others tolerate.
-/
import Microfat.Lifecycle.Atomic

namespace Microfat.Lifecycle

open Theory
open Function (update update_apply update_of_ne)

set_option autoImplicit false

variable {ι : Type}

/-! ## Publications -/

variable {s n : Nat}

def Event.run : Event ι → ι
  | .target run _ | .snapshot run _ | .staged run _ _ | .transformed run _ | .published run _ _ _ => run

structure Publication (ι : Type) where
  run : ι
  replaced : Option Nat
  ino : Nat

/-- A publication at the entry. -/
def publication (E : Loc) : Event ι → Option (Publication ι)
  | .published run place replaced ino => if place = E then some ⟨run, replaced, ino⟩ else none
  | _ => none

/-- What was published at the entry, newest first. -/
def publications (E : Loc) (log : List (Event ι)) : List (Publication ι) := log.filterMap (publication E)

/-- What was ever at the entry, newest first. -/
def everAt (E : Loc) (first : Nat) (log : List (Event ι)) : List Nat :=
  (publications E log).map Publication.ino ++ [first]

def snapshotOf [DecidableEq ι] (i : ι) : Event ι → Option Nat
  | .snapshot run ino => if run = i then some ino else none
  | _ => none

/-- The snapshots of a run. -/
def snapshotsOf [DecidableEq ι] (i : ι) (log : List (Event ι)) : List Nat := log.filterMap (snapshotOf i)

/-- Each publication replaced the one before it; the last one is what is there. -/
def Linked (first : Nat) : List (Publication ι) → Nat → Prop
  | [], current => current = first
  | p :: older, current => current = p.ino ∧ ∃ prev, p.replaced = some prev ∧ Linked first older prev

theorem Linked.head {first current : Nat} {l : List (Publication ι)} (h : Linked first l current) :
    (l.map Publication.ino ++ [first]).head? = some current := by
  cases l with
  | nil => exact congrArg some (Eq.symm h)
  | cons p older => exact congrArg some h.1.symm

section Invariant

variable [DecidableEq ι] (E : Loc) (first : Nat)

structure Inv (w : World ι) : Prop where
  sound : w.Sound
  current : ∃ cur, w.bind E = some cur ∧ Linked first (publications E w.log) cur ∧
    (w.node cur).kind = .regular
  distinct : (everAt E first w.log).Nodup
  observed : ∀ p ∈ publications E w.log, ∃ s, p.replaced = some s ∧ snapshotsOf p.run w.log = [s]
  created : ∀ p ∈ publications E w.log, w.creator p.ino = some p.run
  foreign : w.creator first = none
  old : first < w.nextIno
  handed : ∀ ino k, w.creator ino = some k → ino < w.nextIno
  once : ((publications E w.log).map Publication.run).Nodup

/-- An event no statement about publications looks at. -/
def Event.Quiet (e : Event ι) : Prop := publication E e = none ∧ ∀ k, snapshotOf k e = none

/-- What the runs in `A` may do. -/
structure Moves (A : ι → Prop) (w w' : World ι) : Prop where
  inv : Inv E first w → Inv E first w'
  locks : ∀ ino j, ¬ A j → w.lock ino = some j → w'.lock ino = some j
  held : ∀ cur j, ¬ A j → w.bind E = some cur → w.lock cur = some j → w'.bind E = some cur
  mine : ∀ e ino j, ¬ A j → e ≠ E → w.bind e = some ino → w.creator ino = some j → w'.bind e = some ino
  creator : ∀ ino k, w.creator ino = some k → w'.creator ino = some k
  kind : ∀ ino, ino < w.nextIno → (w'.node ino).kind = (w.node ino).kind
  grown : w.nextIno ≤ w'.nextIno
  log : ∃ l, w'.log = l ++ w.log ∧ ∀ e ∈ l, A e.run ∨ e.Quiet E

variable {E first} {A B : ι → Prop} {u v w w' : World ι}

theorem Moves.refl (A : ι → Prop) (w : World ι) : Moves E first A w w :=
  ⟨id, fun _ _ _ h => h, fun _ _ _ h _ => h, fun _ _ _ _ _ h _ => h, fun _ _ h => h, fun _ _ => rfl,
    Nat.le_refl _, [], rfl, by simp⟩

theorem Moves.trans (h : Moves E first A u v) (h' : Moves E first A v w) : Moves E first A u w where
  inv := h'.inv ∘ h.inv
  locks ino j other held := h'.locks ino j other (h.locks ino j other held)
  held cur j other here held :=
    h'.held cur j other (h.held cur j other here held) (h.locks cur j other held)
  mine e ino j other away here created :=
    h'.mine e ino j other away (h.mine e ino j other away here created) (h.creator ino j created)
  creator ino k created := h'.creator ino k (h.creator ino k created)
  kind ino old := (h'.kind ino (Nat.lt_of_lt_of_le old h.grown)).trans (h.kind ino old)
  grown := h.grown.trans h'.grown
  log := by
    obtain ⟨l, eq, all⟩ := h.log
    obtain ⟨l', eq', all'⟩ := h'.log
    refine ⟨l' ++ l, by rw [eq', eq, List.append_assoc], ?_⟩
    exact List.forall_mem_append.mpr ⟨all', all⟩

theorem Moves.mono (h : Moves E first A w w') (le : ∀ j, A j → B j) : Moves E first B w w' where
  inv := h.inv
  locks ino j other := h.locks ino j fun a => other (le j a)
  held cur j other := h.held cur j fun a => other (le j a)
  mine e ino j other := h.mine e ino j fun a => other (le j a)
  creator := h.creator
  kind := h.kind
  grown := h.grown
  log := by
    obtain ⟨l, eq, all⟩ := h.log
    exact ⟨l, eq, fun e mem => (all e mem).imp_left (le _)⟩

theorem Inv.current_mem (h : Inv E first w) {cur : Nat} (here : w.bind E = some cur) :
    cur ∈ everAt E first w.log := by
  obtain ⟨c, bound, linked, -⟩ := h.current
  rw [bound] at here
  cases here
  exact List.mem_of_mem_head? linked.head

/-- A file that was at the entry and is there later has been there all along. -/
theorem Moves.returns (moves : Moves E first A w w') (h : Inv E first w)
    (was : s ∈ everAt E first w.log) (here : w'.bind E = some s) : w.bind E = some s := by
  obtain ⟨l, log, -⟩ := moves.log
  obtain ⟨cur', bound', linked', -⟩ := (moves.inv h).current
  obtain ⟨cur, bound, linked, -⟩ := h.current
  rw [bound'] at here
  cases here
  have grown : everAt E first w'.log = (publications E l).map Publication.ino ++ everAt E first w.log := by
    rw [everAt, publications, log, List.filterMap_append, List.map_append, List.append_assoc]
    rfl
  have distinct := (moves.inv h).distinct
  have head := linked'.head
  rw [← everAt, grown] at head
  rw [grown] at distinct
  cases new : (publications E l).map Publication.ino with
  | nil =>
    rw [new, List.nil_append] at head
    rw [bound, ← linked.head, ← head]
    rfl
  | cons p rest =>
    rw [new] at head distinct
    simp only [List.cons_append, List.head?_cons, Option.some.injEq] at head
    rw [List.cons_append, List.nodup_cons, head] at distinct
    exact absurd (List.mem_append_right _ was) distinct.1

/-! ## Single steps -/

variable {e : Loc}

variable {l : List (Event ι)}

theorem publications_quiet {log : List (Event ι)} (quiet : ∀ e ∈ l, e.Quiet E) :
    publications E (l ++ log) = publications E log := by
  have none : l.filterMap (publication E) = [] :=
    List.filterMap_eq_nil_iff.mpr fun e mem => (quiet e mem).1
  rw [publications, List.filterMap_append, none, List.nil_append]
  rfl

theorem snapshotsOf_quiet {log : List (Event ι)} (quiet : ∀ e ∈ l, e.Quiet E) (k : ι) :
    snapshotsOf k (l ++ log) = snapshotsOf k log := by
  have none : l.filterMap (snapshotOf k) = [] :=
    List.filterMap_eq_nil_iff.mpr fun e mem => (quiet e mem).2 k
  rw [snapshotsOf, List.filterMap_append, none, List.nil_append]
  rfl

/-- A step that binds nothing: nobody notices. -/
theorem Moves.quiet (bind : w'.bind = w.bind) (creator : w'.creator = w.creator)
    (nextIno : w'.nextIno = w.nextIno) (kind : ∀ ino, (w'.node ino).kind = (w.node ino).kind)
    (locks : ∀ ino j, w.lock ino = some j → w'.lock ino = some j) (log : w'.log = l ++ w.log)
    (quiet : ∀ e ∈ l, e.Quiet E) :
    Moves E first (fun _ => False) w w' where
  inv h := by
    have pubs : publications E w'.log = publications E w.log := by rw [log, publications_quiet quiet]
    have snaps : ∀ k, snapshotsOf k w'.log = snapshotsOf k w.log := by
      intro k
      rw [log, snapshotsOf_quiet quiet]
    exact
      { sound := by rw [World.Sound, bind, nextIno]; exact h.sound
        current := by simpa only [bind, pubs, kind] using h.current
        distinct := by rw [everAt, pubs]; exact h.distinct
        observed := by simpa only [pubs, snaps] using h.observed
        created := by simpa only [pubs, creator] using h.created
        foreign := by rw [creator, h.foreign]
        old := by rw [nextIno]; exact h.old
        handed := by simpa only [creator, nextIno] using h.handed
        once := by rw [pubs]; exact h.once }
  locks ino j _ := locks ino j
  held cur j _ here _ := by rw [bind, here]
  mine e ino j _ _ here _ := by rw [bind, here]
  creator := by simp [creator]
  kind ino _ := kind ino
  grown := nextIno.ge
  log := ⟨l, log, fun e mem => .inr (quiet e mem)⟩

/-- A new file under a free name: nobody notices either. -/
theorem Moves.create (h : Inv E first w) (free : w.bind e = none) (n : Node) (owner : Option ι) :
    Moves E first (fun _ => False) w (w.create e n owner) where
  inv _ := by
    obtain ⟨cur, here, linked, regular⟩ := h.current
    have away : E ≠ e := by
      rintro rfl
      rw [here] at free
      cases free
    have known := h.sound E cur here
    refine
      { sound := fun e' i there => ?_
        current := ⟨cur, (update_of_ne away _ _).trans here, linked, ?_⟩
        distinct := h.distinct
        observed := h.observed
        created := fun p mem => ?_
        foreign := (update_of_ne (Nat.ne_of_lt h.old) _ _).trans h.foreign
        old := Nat.lt_succ_of_lt h.old
        handed := fun ino k made => ?_
        once := h.once }
    · simp only [World.create, update_apply] at there ⊢
      split at there
      · cases there
        exact Nat.lt_succ_self _
      · exact Nat.lt_succ_of_lt (h.sound e' i there)
    · simp only [World.create]
      rw [update_of_ne (Nat.ne_of_lt known), regular]
    · have made := h.created p mem
      exact (update_of_ne (Nat.ne_of_lt (h.handed _ _ made)) _ _).trans made
    · simp only [World.create, update_apply] at made ⊢
      split at made
      · omega
      · exact Nat.lt_succ_of_lt (h.handed ino k made)
  locks _ _ _ held := held
  held cur j _ here _ := by
    refine (update_of_ne ?_ _ _).trans here
    rintro rfl
    rw [here] at free
    cases free
  mine e' ino j _ _ here _ := by
    refine (update_of_ne ?_ _ _).trans here
    rintro rfl
    rw [here] at free
    cases free
  creator ino k made :=
    (update_of_ne (Nat.ne_of_lt (h.handed ino k made)) _ _).trans made
  kind ino old := by
    simp only [World.create]
    rw [update_of_ne (Nat.ne_of_lt old)]
  grown := Nat.le_succ _
  log := ⟨[], rfl, by simp⟩

theorem Moves.makeDirs (time : Int) (l : List Loc) (h : Inv E first w) :
    Moves E first (fun _ => False) w (World.makeDirs time w l) := by
  induction l generalizing w with
  | nil => exact .refl _ w
  | cons e l ih =>
    rw [World.makeDirs]
    split
    · rename_i free
      have made := Moves.create h free (World.directory time) none
      exact made.trans (ih (made.inv h))
    · exact ih h

section Own

variable {i : ι}

/-- A run records its only snapshot before it publishes. -/
theorem Moves.snapshot (unpublished : ∀ p ∈ publications E w.log, p.run ≠ i) (ino : Nat) :
    Moves E first (· = i) w (w.note (.snapshot i ino)) where
  inv h :=
    { sound := h.sound
      current := h.current
      distinct := h.distinct
      observed := by
        intro p mem
        obtain ⟨s, replaced, seen⟩ := h.observed p mem
        refine ⟨s, replaced, ?_⟩
        have other : snapshotOf p.run (.snapshot i ino) = none := if_neg (Ne.symm (unpublished p mem))
        simpa [snapshotsOf, World.note, other] using seen
      created := h.created
      foreign := h.foreign
      old := h.old
      handed := h.handed
      once := h.once }
  locks _ _ _ held := held
  held _ _ _ here _ := here
  mine _ _ _ _ _ here _ := here
  creator _ _ made := made
  kind _ _ := rfl
  grown := Nat.le_refl _
  log := ⟨[.snapshot i ino], rfl, by simp [Event.run]⟩

theorem Moves.unlock (ino : Nat) (mine : w.lock ino = some i) :
    Moves E first (· = i) w { w with lock := update w.lock ino none } where
  inv h := ⟨h.sound, h.current, h.distinct, h.observed, h.created, h.foreign, h.old, h.handed, h.once⟩
  locks o j other held := by
    refine (update_of_ne ?_ _ _).trans held
    rintro rfl
    rw [mine] at held
    cases held
    exact other rfl
  held _ _ _ here _ := here
  mine _ _ _ _ _ here _ := here
  creator _ _ made := made
  kind _ _ := rfl
  grown := Nat.le_refl _
  log := ⟨[], rfl, by simp⟩

/-- A run drops the name of its staging file. -/
theorem Moves.unbind (bound : w.bind e = some n) (made : w.creator n = some i) (away : e ≠ E) :
    Moves E first (· = i) w ((w.relink n (· - 1)).setBind e none) := by
  have kind := relink_kind w n (· - 1)
  refine ⟨fun h => ?_, fun _ _ _ held => held, fun cur j _ here _ => ?_, fun e' ino j other _ here created => ?_,
    fun _ _ made => made, fun ino _ => kind ino, Nat.le_refl _, [], rfl, by simp⟩
  · obtain ⟨cur, here, linked, regular⟩ := h.current
    refine ⟨fun e' ino there => ?_, ⟨cur, (update_of_ne (Ne.symm away) _ _).trans here, linked,
      (kind cur).trans regular⟩, h.distinct, h.observed, h.created, h.foreign, h.old, h.handed, h.once⟩
    simp only [World.setBind, update_apply] at there
    split at there
    · cases there
    · exact h.sound e' ino there
  · exact (update_of_ne (Ne.symm away) _ _).trans here
  · refine (update_of_ne ?_ _ _).trans here
    rintro rfl
    rw [bound] at here
    cases here
    rw [made] at created
    cases created
    exact other rfl

end Own

end Invariant

/-! ## What a run knows -/

section Knowledge

variable [DecidableEq ι] (E : Loc) (first : Nat) (i : ι)

/-- The run has published nothing. -/
structure Fresh (w : World ι) : Prop where
  inv : Inv E first w
  unpublished : ∀ p ∈ publications E w.log, p.run ≠ i

/-- It took no snapshot yet. -/
structure Unseen (w : World ι) : Prop extends Fresh E first i w where
  snapshots : snapshotsOf i w.log = []

/-- It has its snapshot. -/
structure Snapped (s : Nat) (w : World ι) : Prop extends Fresh E first i w where
  snapshots : snapshotsOf i w.log = [s]

/-- The snapshot is of a file that was at the entry. -/
structure Seen (s : Nat) (w : World ι) : Prop extends Snapped E first i s w where
  was : s ∈ everAt E first w.log

/-- It opened a file: that of the snapshot, unless that one is gone. -/
structure Opened (s o : Nat) (w : World ι) : Prop extends Seen E first i s w where
  same : o = s ∨ w.bind E ≠ some s

/-- It has locked that file. -/
structure Locked (s o : Nat) (w : World ι) : Prop extends Opened E first i s o w where
  lock : w.lock o = some i

/-- It has a staging file. -/
structure HasStaged (s o : Nat) (place : Loc) (n : Nat) (w : World ι) : Prop
    extends Locked E first i s o w where
  bound : w.bind place = some n
  made : w.creator n = some i
  away : place ≠ E
  regular : (w.node n).kind = .regular

/-- The file of the snapshot is at the entry, and locked. -/
structure Matched (s : Nat) (place : Loc) (n : Nat) (w : World ι) : Prop
    extends HasStaged E first i s s place n w where
  here : w.bind E = some s

/-- It has published. -/
structure HasPublished (w : World ι) : Prop where
  inv : Inv E first w
  published : ∃ p ∈ publications E w.log, p.run = i

variable {E first i} {w w' : World ι}

theorem Moves.publications_of_others (moves : Moves E first (· ≠ i) w w') {p : Publication ι}
    (mem : p ∈ publications E w'.log) (mine : p.run = i) : p ∈ publications E w.log := by
  obtain ⟨l, log, others⟩ := moves.log
  rw [log, publications, List.filterMap_append, List.mem_append] at mem
  refine mem.resolve_left fun new => ?_
  obtain ⟨e, inside, found⟩ := List.mem_filterMap.mp new
  rcases others e inside with other | quiet
  · refine other ?_
    cases e <;> simp only [publication] at found
    all_goals first
      | cases found
      | (split at found
         · cases found; exact mine
         · cases found)
  · rw [quiet.1] at found
    cases found

theorem Moves.snapshots_of_others (moves : Moves E first (· ≠ i) w w') :
    snapshotsOf i w'.log = snapshotsOf i w.log := by
  obtain ⟨l, log, others⟩ := moves.log
  have none : l.filterMap (snapshotOf i) = [] := by
    refine List.filterMap_eq_nil_iff.mpr fun e mem => ?_
    rcases others e mem with other | quiet
    · cases e with
      | snapshot run ino => exact if_neg other
      | _ => rfl
    · exact quiet.2 i
  rw [snapshotsOf, log, List.filterMap_append, none, List.nil_append]
  rfl

theorem Moves.everAt_subset {A : ι → Prop} (moves : Moves E first A w w')
    (was : s ∈ everAt E first w.log) : s ∈ everAt E first w'.log := by
  obtain ⟨l, log, -⟩ := moves.log
  rw [log, everAt, publications, List.filterMap_append, List.map_append, List.append_assoc]
  exact List.mem_append_right _ was

theorem fresh_stable : Stable (Moves E first (· ≠ i)) (Fresh E first i) :=
  fun _ _ h moves => ⟨moves.inv h.inv, fun p mem mine =>
    h.unpublished p (moves.publications_of_others mem mine) mine⟩

theorem unseen_stable : Stable (Moves E first (· ≠ i)) (Unseen E first i) :=
  fun _ _ h moves => ⟨fresh_stable _ _ h.toFresh moves, moves.snapshots_of_others.trans h.snapshots⟩

theorem snapped_stable (s : Nat) : Stable (Moves E first (· ≠ i)) (Snapped E first i s) :=
  fun _ _ h moves => ⟨fresh_stable _ _ h.toFresh moves, moves.snapshots_of_others.trans h.snapshots⟩

theorem seen_stable (s : Nat) : Stable (Moves E first (· ≠ i)) (Seen E first i s) :=
  fun _ _ h moves => ⟨snapped_stable s _ _ h.toSnapped moves, moves.everAt_subset h.was⟩

theorem opened_stable (s o : Nat) : Stable (Moves E first (· ≠ i)) (Opened E first i s o) :=
  fun _ _ h moves => ⟨seen_stable s _ _ h.toSeen moves,
    h.same.imp_right fun gone here => gone (moves.returns h.inv h.was here)⟩

theorem locked_stable (s o : Nat) : Stable (Moves E first (· ≠ i)) (Locked E first i s o) :=
  fun _ _ h moves => ⟨opened_stable s o _ _ h.toOpened moves, moves.locks o i (by simp) h.lock⟩

theorem hasStaged_stable (s o : Nat) (place : Loc) (n : Nat) :
    Stable (Moves E first (· ≠ i)) (HasStaged E first i s o place n) :=
  fun _ _ h moves => ⟨locked_stable s o _ _ h.toLocked moves,
    moves.mine place n i (by simp) h.away h.bound h.made, moves.creator n i h.made, h.away,
    (moves.kind n (h.inv.handed n i h.made)).trans h.regular⟩

theorem matched_stable (s : Nat) (place : Loc) (n : Nat) :
    Stable (Moves E first (· ≠ i)) (Matched E first i s place n) :=
  fun _ _ h moves => ⟨hasStaged_stable s s place n _ _ h.toHasStaged moves,
    moves.held s i (by simp) h.here h.lock⟩

theorem hasPublished_stable : Stable (Moves E first (· ≠ i)) (HasPublished E first i) := by
  intro w w' h moves
  obtain ⟨p, mem, mine⟩ := h.published
  obtain ⟨l, log, -⟩ := moves.log
  refine ⟨moves.inv h.inv, p, ?_, mine⟩
  rw [log, publications, List.filterMap_append]
  exact List.mem_append_right _ mem

variable {place : Loc}

/-- The staging file of a run that has not published was never at the entry. -/
theorem HasStaged.never {o : Nat} (h : HasStaged E first i s o place n w) :
    n ∉ everAt E first w.log := by
  intro was
  rcases List.mem_append.mp was with published | start
  · obtain ⟨p, mem, same⟩ := List.mem_map.mp published
    have made := h.inv.created p mem
    rw [same, h.made] at made
    exact h.unpublished p mem (Option.some.inj made).symm
  · rw [List.mem_singleton] at start
    have made := h.made
    rw [start, h.inv.foreign] at made
    cases made

section

variable (h : Matched E first i s place n w)

include h

theorem Matched.published : Inv E first ((w.move place E n).note (.published i E (some s) n)) := by
  have log : publications E (Event.published i E (some s) n :: w.log) =
      ⟨i, some s, n⟩ :: publications E w.log := by
    simp [publications, publication]
  have snaps : ∀ k, snapshotsOf k (Event.published i E (some s) n :: w.log) = snapshotsOf k w.log :=
    fun k => rfl
  obtain ⟨cur, here, linked, -⟩ := h.inv.current
  rw [h.here] at here
  cases here
  have handed := h.inv.handed n i h.made
  refine
    { sound := fun e ino there => ?_
      current := ⟨n, move_bind_new w h.away.symm, ?_, (move_kind place E n w n).trans h.regular⟩
      distinct := ?_
      observed := ?_
      created := ?_
      foreign := by simpa [World.note] using h.inv.foreign
      old := by simpa [World.note] using h.inv.old
      handed := by simpa [World.note] using h.inv.handed
      once := ?_ }
  · simp only [World.note, move_nextIno]
    by_cases atPlace : e = place
    · rw [atPlace, World.note, move_bind_old] at there
      cases there
    · by_cases atE : e = E
      · rw [atE, World.note, move_bind_new w h.away.symm] at there
        cases there
        exact handed
      · rw [World.note, move_bind_other w atPlace atE] at there
        exact h.inv.sound e ino there
  · simp only [World.note, move_log, log]
    exact ⟨rfl, s, rfl, linked⟩
  · simp only [World.note, move_log, everAt, log, List.map_cons, List.cons_append]
    exact List.nodup_cons.mpr ⟨h.never, h.inv.distinct⟩
  · simp only [World.note, move_log, log, snaps]
    exact List.forall_mem_cons.mpr ⟨⟨s, rfl, h.snapshots⟩, h.inv.observed⟩
  · simp only [World.note, move_log, log, move_creator]
    exact List.forall_mem_cons.mpr ⟨h.made, h.inv.created⟩
  · simp only [World.note, move_log, log, List.map_cons]
    refine List.nodup_cons.mpr ⟨fun mem => ?_, h.inv.once⟩
    obtain ⟨p, published, mine⟩ := List.mem_map.mp mem
    exact h.unpublished p published mine

/-- **The rename of a run that holds the lock.** -/
theorem Matched.publish :
    Moves E first (· = i) w ((w.move place E n).note (.published i E (some s) n)) where
  inv _ := h.published
  locks ino j _ held := by simpa [World.note] using held
  held cur j other here held := by
    rw [h.here] at here
    cases here
    rw [h.lock] at held
    exact absurd (Option.some.inj held).symm other
  mine e ino j other away here created := by
    refine (move_bind_other w ?_ away).trans here
    rintro rfl
    rw [h.bound] at here
    cases here
    rw [h.made] at created
    exact other (Option.some.inj created).symm
  creator ino k made := by simpa [World.note] using made
  kind ino _ := move_kind place E n w ino
  grown := by simp [World.note]
  log := ⟨[.published i E (some s) n], by simp [World.note], by simp [Event.run]⟩

theorem Matched.hasPublished :
    HasPublished E first i ((w.move place E n).note (.published i E (some s) n)) := by
  refine ⟨h.published, ⟨i, some s, n⟩, ?_, rfl⟩
  simp [World.note, publications, publication]

end

end Knowledge

/-! ## Runs -/

section Runs

variable [DecidableEq ι] (names : Names) {E : Loc} {first : Nat} {i : ι} {w : World ι}

variable {c : Call}

theorem step_quiet (quiet : c.Quiet) (w : World ι) (x : Choice) :
    Moves E first (fun _ => False) w (step names i w c x).1 := by
  rcases quiet with looks | ⟨ino, retouches | rfl⟩
  · rw [step_looks names i looks]
    exact .refl _ w
  · have h := step_retouches names i retouches w x
    refine .quiet h.bind h.creator h.nextIno (fun j => ?_) (by rw [h.lock]; exact fun _ _ held => held)
      (l := []) h.log (by simp)
    by_cases same : j = ino
    · rw [same, h.kind]
    · rw [h.others j same]
  · have kind : ∀ (n : Node) (j : Nat), n.kind = (w.node ino).kind →
        ((w.setNode ino n).node j).kind = (w.node j).kind := by
      intro n j same
      simp only [World.setNode, update_apply]
      split
      · rename_i here
        rw [here, same]
      · rfl
    cases failed : x.failure with
    | some err =>
      simp only [step, failed]
      exact .quiet rfl rfl rfl (fun j => kind _ j rfl) (fun _ _ held => held) (l := []) rfl (by simp)
    | none =>
      simp only [step, failed]
      exact .quiet rfl rfl rfl (fun j => kind _ j rfl) (fun _ _ held => held)
        (l := [.transformed i x.content]) rfl (by simp [Event.Quiet, publication, snapshotOf])

/-- Nobody else's doing is also a run's own doing, and the others'. -/
theorem Moves.own {w w' : World ι} (h : Moves E first (fun _ => False) w w') : Moves E first (· = i) w w' :=
  h.mono fun _ no => no.elim

theorem Moves.others {w w' : World ι} (h : Moves E first (fun _ => False) w w') :
    Moves E first (· ≠ i) w w' :=
  h.mono fun _ no => no.elim

/-- What run `i` ensures while the others replace the file too. -/
abbrev RunEnsures {α : Type} (E : Loc) (first : Nat) (i : ι) (p : Program α) (Q : α → World ι → Prop)
    (w : World ι) : Prop :=
  Ensures (step names i) (Moves E first (· ≠ i)) (Moves E first (· = i)) p Q w

section

variable {α : Type} {P : World ι → Prop} {f : c.Reply → Program α} {Q : α → World ι → Prop}
  (stable : Stable (Moves E first (· ≠ i)) P)

include stable

/-- A call that nobody notices keeps what the run knows. -/
theorem ensures_unnoticed (holds : P w)
    (unnoticed : ∀ w x, P w → Moves E first (fun _ => False) w (step names i w c x).1)
    (next : ∀ w x, P w → P (step names i w c x).1 →
      RunEnsures names E first i (f (step names i w c x).2) Q (step names i w c x).1) :
    RunEnsures names E first i (Prog.call c >>= f) Q w :=
  ensures_call stable holds fun w x holds =>
    ⟨(unnoticed w x holds).own, next w x holds (stable _ _ holds (unnoticed w x holds).others)⟩

/-- The same for a call that only looks: the answer is about the world as it is. -/
theorem ensures_look (holds : P w) (looks : c.Looks)
    (next : ∀ w x, P w → RunEnsures names E first i (f (step names i w c x).2) Q w) :
    RunEnsures names E first i (Prog.call c >>= f) Q w := by
  refine ensures_call stable holds fun w x holds => ?_
  rw [step_looks names i looks]
  exact ⟨.refl _ w, next w x holds⟩

theorem ensures_quiet {p : Program α} {S : α → Prop} (uses : p.Obeys Call.Quiet S) (holds : P w) :
    RunEnsures names E first i p (fun _ w => P w) w :=
  ensures_uses stable (fun w _ x quiet holds =>
    ⟨(step_quiet names quiet w x).own, stable _ _ holds (step_quiet names quiet w x).others⟩) uses holds

end

end Runs

end Microfat.Lifecycle
