/-
# Microfat.Lifecycle.Replace — no update is lost

`execute` in place, run by any number of threads on one entry.  Each of its parts is
followed with what the run knows (`Chain`): the snapshot is of a file that was at
the entry, the lock is on that file or that file is gone, and the comparison
before the rename leaves only the first case.

* `execute_ensures`: what one run does, whatever the others do;
* `execute_chain`: **in every interleaving the published files form a chain, each
  of them published by the one run that had taken a snapshot of its predecessor**,
  and a run has published exactly when it does not report an early error.
-/
import Microfat.Lifecycle.Chain

namespace Microfat.Lifecycle

open Theory

set_option autoImplicit false

section Run

variable {ι : Type} [DecidableEq ι] (names : Names) {E : Loc} {first : Nat} {i : ι}

/-! ## The snapshot -/

variable {w : World ι} {path : Bytes}

section

variable (h : Inv E first w) (here : names.entry path = E)

include h here

/-- A path that names the entry leads to the file that is there. -/
theorem Inv.follow {ino : Nat} (found : w.follow 40 (names.entry path) = .ok ino) : w.bind E = some ino := by
  obtain ⟨cur, bound, -, regular⟩ := h.current
  rw [here] at found
  simp only [World.follow, bound, regular] at found
  cases found
  exact bound

theorem Inv.stat {x : Choice} {fi : FileInfo} (found : (step names i w (.stat path) x).2 = .ok fi) :
    w.bind E = some fi.ino := by
  cases failed : x.errno with
  | some n => simp [step, failed] at found
  | none =>
    simp only [step, failed] at found
    cases followed : w.follow 40 (names.entry path) with
    | error n => simp [followed, Except.map] at found
    | ok ino =>
      rw [followed] at found
      cases found
      exact h.follow names here followed

end

/-- A run that is done: nothing published, or its one publication. -/
def Ended (E : Loc) (first : Nat) (i : ι) (r : Option Err) (w : World ι) : Prop :=
  (∃ err, r = some err ∧ ¬ Durability err ∧ Fresh E first i w) ∨
    ((∀ err, r = some err → Durability err) ∧ HasPublished E first i w)

theorem ended_stable (r : Option Err) : Stable (Moves E first (· ≠ i)) (Ended E first i r) := by
  rintro w w' (⟨err, failed, early, fresh⟩ | ⟨durable, published⟩) moves
  · exact .inl ⟨err, failed, early, fresh_stable _ _ fresh moves⟩
  · exact .inr ⟨durable, hasPublished_stable _ _ published moves⟩

theorem Ended.unlock {r : Option Err} {w' : World ι} (h : Ended E first i r w)
    (moves : Moves E first (· = i) w w') (log : w'.log = w.log) : Ended E first i r w' := by
  rcases h with ⟨err, failed, early, fresh⟩ | ⟨durable, published⟩
  · exact .inl ⟨err, failed, early, moves.inv fresh.inv, by rw [log]; exact fresh.unpublished⟩
  · exact .inr ⟨durable, moves.inv published.inv, by rw [log]; exact published.published⟩

theorem ensures_early {err : Err} (early : Early (some err)) (fresh : Fresh E first i w) :
    RunEnsures names E first i (.ret (some err)) (Ended E first i) w :=
  ensures_ret (ended_stable (some err)) (.inl ⟨err, rfl, early err rfl, fresh⟩) fun _ h => h

/-- A run that stops before it published anything, with an answer that promises nothing. -/
theorem ensures_stop {α : Type} {r : α} {Q : α → World ι → Prop} (fresh : Fresh E first i w) (nothing : ∀ w, Q r w) :
    RunEnsures names E first i (.ret r) (fun r w => Fresh E first i w ∧ Q r w) w :=
  ensures_ret fresh_stable fresh fun w fresh => ⟨fresh, nothing w⟩

/-- A file that was ever at the entry stays one that was. -/
theorem stable_was {P : World ι → Prop} (stable : Stable (Moves E first (· ≠ i)) P) (C : Prop) (s : Nat) :
    Stable (Moves E first (· ≠ i)) fun w => P w ∧ (C → s ∈ everAt E first w.log) :=
  fun _ _ h moves => ⟨stable _ _ h.1 moves, fun c => moves.everAt_subset (h.2 c)⟩

/-- The snapshot goes on record. -/
theorem snapshotted_ensures {α : Type} {a : α} {s : Nat} {C : Prop}
    (unseen : Unseen E first i w ∧ (C → s ∈ everAt E first w.log)) :
    RunEnsures names E first i (snapshotted s >>= fun _ => .ret a)
      (fun r w => r = a ∧ Snapped E first i s w ∧ (C → s ∈ everAt E first w.log)) w := by
  refine ensures_call (stable_was unseen_stable C s) unseen fun w x known => ?_
  have moves : Moves E first (· = i) w _ := Moves.snapshot known.1.unpublished s
  refine ⟨moves, ensures_ret (stable_was (snapped_stable s) C s)
    ⟨⟨⟨moves.inv known.1.inv, known.1.unpublished⟩, ?_⟩, known.2⟩ fun _ h => ⟨rfl, h⟩⟩
  have recorded := known.1.snapshots
  simp only [snapshotsOf] at recorded
  simp [step, World.note, snapshotsOf, snapshotOf, recorded]

theorem takeSourceSnapshot_ensures (f : Option Nat) (here : names.entry path = E)
    (unseen : Unseen E first i w) :
    RunEnsures names E first i (takeSourceSnapshot f path)
      (fun r w => Fresh E first i w ∧ ∀ snap, r = .ok snap →
        Snapped E first i snap.ino w ∧ (f = none → snap.ino ∈ everAt E first w.log)) w := by
  cases f with
  | some ino =>
    refine ensures_look names unseen_stable unseen trivial fun w x unseen => ?_
    rcases (step names i w (.fstat ino) x).2 with n | fi
    · exact ensures_stop names unseen.toFresh (by simp)
    · refine ensures_look names unseen_stable unseen trivial fun w x unseen => ?_
      rcases (step names i w (.readFdXattrs ino) x).2 with n | xattrs
      · exact ensures_stop names unseen.toFresh (by simp)
      · refine ensures_mono ?_ (snapshotted_ensures names (C := False) ⟨unseen, False.elim⟩)
        rintro _ w ⟨rfl, snapped, -⟩
        refine ⟨snapped.toFresh, ?_⟩
        rintro _ ⟨⟩
        exact ⟨snapped, by simp⟩
  | none =>
    refine ensures_look names unseen_stable unseen trivial fun w x unseen => ?_
    cases found : (step names i w (.stat path) x).2 with
    | error n => exact ensures_stop names unseen.toFresh (by simp)
    | ok fi =>
      have was := unseen.inv.current_mem (unseen.inv.stat names here found)
      refine ensures_look names (stable_was unseen_stable True _) ⟨unseen, fun _ => was⟩ trivial fun w x known => ?_
      rcases (step names i w (.readXattrs path) x).2 with n | xattrs
      · exact ensures_stop names known.1.toFresh (by simp)
      · refine ensures_mono ?_ (snapshotted_ensures names known)
        rintro _ w ⟨rfl, snapped, was⟩
        refine ⟨snapped.toFresh, ?_⟩
        rintro _ ⟨⟩
        exact ⟨snapped, fun _ => was trivial⟩

/-- A descriptor that passes the check is of the file at the entry. -/
theorem checkDescriptor_ensures (tx : Transaction) (snap : Snapshot) {realSrc : Bytes}
    (here : names.entry realSrc = E) (snapped : Snapped E first i snap.ino w)
    (was : tx.srcFile = none → snap.ino ∈ everAt E first w.log) :
    RunEnsures names E first i (checkDescriptor tx snap realSrc)
      (fun r w => Fresh E first i w ∧ (r = none → Seen E first i snap.ino w)) w := by
  have passed : ∀ w : World ι, Seen E first i snap.ino w →
      RunEnsures names E first i (.ret (none : Option Err))
        (fun r w => Fresh E first i w ∧ (r = none → Seen E first i snap.ino w)) w :=
    fun w seen => ensures_ret (seen_stable snap.ino) seen fun _ h => ⟨h.toFresh, fun _ => h⟩
  rw [checkDescriptor]
  split
  · rename_i none
    exact passed w ⟨snapped, was (Option.isNone_iff_eq_none.mp none)⟩
  · refine ensures_look names (snapped_stable snap.ino) snapped trivial fun w x snapped => ?_
    cases found : (step names i w (.stat realSrc) x).2 with
    | error n => exact ensures_stop names snapped.toFresh (by simp)
    | ok fi =>
      by_cases same : fi.ino = snap.ino
      · have current := snapped.inv.current_mem (snapped.inv.stat names here found)
        simpa [same] using passed w ⟨snapped, same ▸ current⟩
      · dsimp only
        rw [if_pos same]
        exact ensures_stop names snapped.toFresh (by simp)

/-- A request to replace the file at the entry. -/
structure Replaces (names : Names) (E : Loc) (tx : Transaction) : Prop where
  intent : tx.intent = .replaceSource
  dest : tx.destPath = []
  entry : names.entry (cleanPath tx.srcPath) = E
  real : ∀ path, names.evalSymlinks (cleanPath tx.srcPath) = .ok path → names.entry path = E

theorem resolveTargetAndSnapshot_ensures (R : MapRange) {tx : Transaction}
    (request : Replaces names E tx) (policy : Policy) (unseen : Unseen E first i w) :
    RunEnsures names E first i (resolveTargetAndSnapshot R tx policy)
      (fun r w => Fresh E first i w ∧ ∀ snap destPath inPlace, r = .ok (snap, destPath, inPlace) →
        inPlace = true ∧ names.entry destPath = E ∧ Seen E first i snap.ino w) w := by
  refine ensures_seq (.refl _) (takeSourceSnapshot_ensures names tx.srcFile request.entry unseen) ?_
  rintro (err | snap) w ⟨fresh, taken⟩
  · exact ensures_stop names fresh (by simp)
  obtain ⟨snapped, was⟩ := taken snap rfl
  dsimp only
  split
  · exact ensures_stop names snapped.toFresh (by simp)
  · refine ensures_look names (stable_was (snapped_stable _) _ _) ⟨snapped, was⟩ trivial fun w x known => ?_
    have here : names.entry
        ((step names i w (.evalSymlinks (cleanPath tx.srcPath)) x).2.toOption.getD (cleanPath tx.srcPath)) = E := by
      cases failed : x.errno with
      | some n => simpa [step, failed, Except.toOption] using request.entry
      | none =>
        cases real : names.evalSymlinks (cleanPath tx.srcPath) with
        | error n => simpa [step, failed, real, Except.toOption] using request.entry
        | ok path => simpa [step, failed, real, Except.toOption] using request.real path real
    refine ensures_seq (.refl _) (checkDescriptor_ensures names tx snap here known.1 known.2) ?_
    rintro (_ | err) w ⟨fresh, seen⟩
    rotate_left
    · exact ensures_stop names fresh (by simp)
    simp only [request.intent, replaceTarget, request.dest, decide_true, Bool.true_or, if_true, Prog.pure_eq,
      Prog.ret_bind]
    split
    · exact ensures_stop names fresh (by simp)
    · refine ensures_ret (seen_stable snap.ino) (seen rfl) fun w seen => ⟨seen.toFresh, ?_⟩
      rintro _ _ _ ⟨⟩
      exact ⟨rfl, here, seen⟩

/-! ## The lock -/

theorem acquireAdvisoryLock_ensures (here : names.entry path = E) {s : Nat} (seen : Seen E first i s w) :
    RunEnsures names E first i (acquireAdvisoryLock path)
      (fun r w => Fresh E first i w ∧ ∀ o, r = .ok o → Locked E first i s o w) w := by
  refine ensures_look names (seen_stable s) seen trivial fun w x seen => ?_
  cases found : (step names i w (.openRead path) x).2 with
  | error n => exact ensures_stop names seen.toFresh (by simp)
  | ok o =>
    have current : w.bind E = some o := by
      cases failed : x.errno with
      | some n => simp [step, failed] at found
      | none =>
        simp only [step, failed] at found
        exact seen.inv.follow names here found
    have opened : Opened E first i s o w := by
      refine ⟨seen, ?_⟩
      by_cases same : o = s
      · exact .inl same
      · exact .inr (by rw [current]; simpa using same)
    refine ensures_call (opened_stable s o) opened fun w y opened => ?_
    cases held : w.lock o with
    | some other =>
      simp only [step, held]
      exact ⟨.refl _ w, ensures_stop names opened.toFresh (by simp)⟩
    | none =>
      cases failed : y.errno with
      | some n =>
        simp only [step, held, failed]
        exact ⟨.refl _ w, ensures_stop names opened.toFresh (by simp)⟩
      | none =>
        simp only [step, held, failed]
        -- a lock nobody held is taken from nobody
        have moves : Moves E first (fun _ => False) w
            { w with lock := Function.update w.lock o (some i) } := by
          refine .quiet rfl rfl rfl (fun _ => rfl) (fun ino j other => ?_) (l := []) rfl (by simp)
          refine (Function.update_of_ne ?_ _ _).trans other
          rintro rfl
          rw [held] at other
          cases other
        have locked : Locked E first i s o { w with lock := Function.update w.lock o (some i) } :=
          ⟨opened_stable s o _ _ opened moves.others, Function.update_self ..⟩
        refine ⟨moves.own, ensures_ret (locked_stable s o) locked fun w locked => ⟨locked.toFresh, ?_⟩⟩
        rintro _ ⟨⟩
        exact locked

/-! ## The staging file and its publication -/

variable {destPath : Bytes}

variable {s o n : Nat} {staged : Staged}

theorem discard_ensures {err : Err} (early : Early (some err))
    (h : HasStaged E first i s o (names.entry staged.path) staged.ino w) :
    RunEnsures names E first i (discard staged err) (Ended E first i) w := by
  refine ensures_look names (hasStaged_stable s o _ _) h trivial fun w _ h => ?_
  refine ensures_call (hasStaged_stable s o _ _) h fun w _ h => ?_
  have moves : Moves E first (· = i) w _ := Moves.unbind h.bound h.made h.away
  simp only [step, h.bound]
  exact ⟨moves, ensures_early names early ⟨moves.inv h.inv, h.unpublished⟩⟩

/-- The comparison before the rename: the file of the snapshot is there, so it is
the one that is locked. -/
theorem HasStaged.matched {place : Loc} (h : HasStaged E first i s o place n w)
    (here : w.bind E = some s) : o = s ∧ Matched E first i s place n w := by
  obtain rfl : o = s := h.same.resolve_right (fun gone => gone here)
  exact ⟨rfl, h, here⟩

theorem publishTransaction_ensures (here : names.entry destPath = E) (snap : Snapshot)
    (breakHardlinks : Bool) (h : HasStaged E first i snap.ino o (names.entry staged.path) staged.ino w) :
    RunEnsures names E first i (publishTransaction true staged.path destPath snap breakHardlinks)
      (fun r w => (r = none → HasPublished E first i w) ∧
        (r ≠ none → HasStaged E first i snap.ino o (names.entry staged.path) staged.ino w)) w := by
  have refused : ∀ (err : Err) (w : World ι),
      HasStaged E first i snap.ino o (names.entry staged.path) staged.ino w →
      RunEnsures names E first i (.ret (some err))
        (fun r w => (r = none → HasPublished E first i w) ∧
          (r ≠ none → HasStaged E first i snap.ino o (names.entry staged.path) staged.ino w)) w :=
    fun err w h => ensures_ret (hasStaged_stable _ _ _ _) h fun _ h => ⟨by simp, fun _ => h⟩
  rw [publishTransaction, if_pos rfl]
  refine ensures_look names (hasStaged_stable _ _ _ _) h trivial fun w x h => ?_
  cases found : (step names i w (.stat destPath) x).2 with
  | error n => exact refused _ w h
  | ok fi =>
    dsimp only
    cases checked : checkTarget fi destPath snap breakHardlinks with
    | some err => exact refused err w h
    | none =>
      have same : fi.ino = snap.ino := by
        rw [checkTarget] at checked
        split at checked
        · cases checked
        · rename_i unchanged
          simp only [Bool.or_eq_true, decide_eq_true_eq, not_or, Decidable.not_not] at unchanged
          exact unchanged.1.1
      obtain ⟨rfl, matched⟩ := h.matched (same ▸ h.inv.stat names here found)
      refine ensures_call (matched_stable _ _ _) matched fun w y m => ?_
      have older : snap.ino ≠ staged.ino := fun same => m.never (same ▸ m.was)
      obtain ⟨cur, bound, -, regular⟩ := m.inv.current
      rw [m.here] at bound
      cases bound
      cases failed : y.errno with
      | some n =>
        simp only [step, failed]
        exact ⟨.refl _ w, refused _ w m.toHasStaged⟩
      | none =>
        simp only [step, failed, m.bound, here, m.here, if_neg older, regular, reduceCtorEq, if_false]
        exact ⟨m.publish, ensures_ret hasPublished_stable m.hasPublished fun _ h => ⟨fun _ => h, by simp⟩⟩

section

variable (R : MapRange) (tx : Transaction) (policy : Policy) (here : names.entry destPath = E)
    (snap : Snapshot)

include R tx policy here snap

theorem transactStaged_ensures (staged : Staged)
    (h : HasStaged E first i snap.ino o (names.entry staged.path) staged.ino w) :
    RunEnsures names E first i (transactStaged R tx policy snap destPath true staged) (Ended E first i) w := by
  refine ensures_seq (.refl _) (ensures_returns (prepare_early R staged snap policy)
    (ensures_quiet names (hasStaged_stable _ _ _ _) (prepare_early R staged snap policy) h)) ?_
  rintro (_ | err) w ⟨early, h⟩
  rotate_left
  · exact discard_ensures names early h
  refine ensures_seq (.refl _) (ensures_returns
    (publishTransaction_early true staged.path destPath snap tx.breakHardlinks)
    (publishTransaction_ensures names here snap tx.breakHardlinks h)) ?_
  rintro (_ | err) w ⟨early, published, unpublished⟩
  rotate_left
  · exact discard_ensures names early (unpublished (by simp))
  refine ensures_look names hasPublished_stable (published rfl) trivial fun w x h => ?_
  rcases (step names i w (.syncDirectory (dirPath destPath)) x).2 with _ | n
  · exact ensures_ret (ended_stable none) (.inr ⟨by simp, h⟩) fun _ h => h
  · refine ensures_ret (ended_stable (some (durabilityError (dirPath destPath) n))) (.inr ⟨?_, h⟩) fun _ h => h
    rintro _ ⟨⟩
    exact ⟨_, n, rfl⟩

theorem transact_ensures (h : Locked E first i snap.ino o w) :
    RunEnsures names E first i (transact R tx policy snap destPath true) (Ended E first i) w := by
  refine ensures_unnoticed names (locked_stable snap.ino o) h ?_ fun w x _ h => ?_
  · intro w x h
    simp only [step]
    split
    · exact .refl _ w
    · split
      · exact .makeDirs _ _ h.inv
      · exact .makeDirs _ _ h.inv
  rcases (step names i w (.mkdirAll (dirPath destPath) destPath) x).2 with _ | n
  rotate_left
  · exact ensures_early names (early_message (by decide)) h.toFresh
  refine ensures_call (locked_stable snap.ino o) h fun w x h => ?_
  cases failed : x.errno with
  | some n =>
    simp only [step, failed]
    exact ⟨.refl _ w, ensures_early names (early_wrapping (by decide)) h.toFresh⟩
  | none =>
  cases free : w.bind (names.entry (tempPath (dirPath destPath) x.random)) with
  | some there =>
    simp only [step, failed, free]
    exact ⟨.refl _ w, ensures_early names (early_wrapping (by decide)) h.toFresh⟩
  | none =>
    simp only [step, failed, free]
    -- the new file and its record
    have created := Moves.create h.inv free ⟨.regular, [], 0o600, 0, 0, [], x.time, 1⟩ (some i)
    have noted : Moves E first (fun _ => False)
        (w.create (names.entry (tempPath (dirPath destPath) x.random))
          ⟨.regular, [], 0o600, 0, 0, [], x.time, 1⟩ (some i))
        ((w.create (names.entry (tempPath (dirPath destPath) x.random))
          ⟨.regular, [], 0o600, 0, 0, [], x.time, 1⟩ (some i)).note
          (.staged i (names.entry (tempPath (dirPath destPath) x.random)) w.nextIno)) :=
      .quiet rfl rfl rfl (fun _ => rfl) (fun _ _ held => held)
      (l := [.staged i (names.entry (tempPath (dirPath destPath) x.random)) w.nextIno]) rfl
      (by simp [Event.Quiet, publication, snapshotOf])
    have moves := created.trans noted
    obtain ⟨cur, bound, -⟩ := h.inv.current
    refine ⟨moves.own, transactStaged_ensures names R tx policy here snap ⟨_, _⟩
      ⟨locked_stable _ _ _ _ h moves.others, Function.update_self .., Function.update_self .., ?_, ?_⟩⟩
    · rintro same
      rw [same, bound] at free
      cases free
    · simp [World.note, World.create]

end

/-! ## The whole run -/

theorem execute_ensures [CaseTable] (R : MapRange) {tx : Transaction} (request : Replaces names E tx)
    (unseen : Unseen E first i w) :
    RunEnsures names E first i (execute R tx) (Ended E first i) w := by
  rw [execute]
  split
  · exact ensures_early names (early_new _) unseen.toFresh
  split
  · exact ensures_early names (early_new _) unseen.toFresh
  split
  · exact ensures_early names (early_about _ _) unseen.toFresh
  split
  · exact ensures_early names (early_new _) unseen.toFresh
  cases parsed : parsePolicy tx.policy with
  | error err => exact ensures_early names (parsePolicy_early parsed) unseen.toFresh
  | ok policy =>
  refine ensures_seq (.refl _) (ensures_returns (resolveTargetAndSnapshot_early R tx policy)
    (resolveTargetAndSnapshot_ensures names R request policy unseen)) ?_
  rintro (err | ⟨snap, destPath, inPlace⟩) w ⟨early, fresh, target⟩
  · exact ensures_early names (early err rfl) fresh
  obtain ⟨rfl, here, seen⟩ := target snap destPath inPlace rfl
  refine ensures_unnoticed names (seen_stable snap.ino) seen ?_ fun w x _ seen => ?_
  · intro w x _
    exact .quiet rfl rfl rfl (fun _ => rfl) (fun _ _ held => held) (l := [.target i destPath]) rfl
      (by simp [Event.Quiet, publication, snapshotOf])
  rw [if_pos rfl]
  refine ensures_seq (.refl _) (ensures_returns (acquireAdvisoryLock_early destPath)
    (acquireAdvisoryLock_ensures names here seen)) ?_
  rintro (err | o) w ⟨early, fresh, locked⟩
  · exact ensures_early names (early err rfl) fresh
  refine ensures_seq (.refl _) (transact_ensures names R tx policy here snap (locked o rfl)) ?_
  intro r w ended
  refine ensures_call (ended_stable r) ended fun w x ended => ?_
  simp only [step]
  split
  · rename_i held
    have moves : Moves E first (· = i) w _ := Moves.unlock o held
    exact ⟨moves, ensures_ret (ended_stable r) (ended.unlock moves rfl) fun _ h => h⟩
  · exact ⟨.refl _ w, ensures_ret (ended_stable r) ended fun _ h => h⟩

end Run

/-! ## All runs -/

section Pool

variable {ι : Type} [DecidableEq ι]

/-- What other programs do: anything but touch the entry, staging files, locks and
the kind of a file. -/
structure Elsewhere (E : Loc) (w w' : World ι) : Prop where
  entry : w'.bind E = w.bind E
  staging : ∀ e ino i, w.bind e = some ino → w.creator ino = some i → w'.bind e = some ino
  sound : w.Sound → w'.Sound
  kind : ∀ ino, ino < w.nextIno → (w'.node ino).kind = (w.node ino).kind
  grown : w.nextIno ≤ w'.nextIno
  lock : w'.lock = w.lock
  creator : w'.creator = w.creator
  log : w'.log = w.log

variable {E : Loc} {first : Nat} {w : World ι}

theorem Elsewhere.moves {w' : World ι} (h : Elsewhere E w w') (A : ι → Prop) :
    Moves E first A w w' where
  inv inv := by
    obtain ⟨cur, bound, linked, regular⟩ := inv.current
    exact
      { sound := h.sound inv.sound
        current := ⟨cur, h.entry.trans bound, by rw [h.log]; exact linked,
          (h.kind cur (inv.sound E cur bound)).trans regular⟩
        distinct := by rw [h.log]; exact inv.distinct
        observed := by rw [h.log]; exact inv.observed
        created := by rw [h.log, h.creator]; exact inv.created
        foreign := by rw [h.creator]; exact inv.foreign
        old := Nat.lt_of_lt_of_le inv.old h.grown
        handed := by
          intro ino k made
          rw [h.creator] at made
          exact Nat.lt_of_lt_of_le (inv.handed ino k made) h.grown
        once := by rw [h.log]; exact inv.once }
  locks ino j _ held := by rw [h.lock, held]
  held cur j _ here _ := h.entry.trans here
  mine e ino j _ _ here made := h.staging e ino j here made
  creator ino k made := by rw [h.creator, made]
  kind := h.kind
  grown := h.grown
  log := ⟨[], by rw [h.log, List.nil_append], by simp⟩

theorem moves_compatible (E : Loc) (first : Nat) :
    Compatible (Elsewhere E) (fun i : ι => Moves E first (· ≠ i)) (fun i => Moves E first (· = i))
      (Inv E first) where
  refl _ := .refl _
  trans _ _ _ _ := .trans
  threads i j _ _ other moves := moves.mono fun k same => by rw [same]; exact other
  environment _ _ _ elsewhere := elsewhere.moves _
  guards _ _ _ moves := moves.inv
  allows _ _ elsewhere := (elsewhere.moves fun _ => False).inv

/-- A file at the entry that no run has made, and no run has started. -/
structure Starts (E : Loc) (first : Nat) (w : World ι) : Prop where
  sound : w.Sound
  here : w.bind E = some first
  regular : (w.node first).kind = .regular
  creator : ∀ ino, w.creator ino = none
  log : w.log = []

theorem Starts.inv (h : Starts E first w) : Inv E first w := by
  refine ⟨h.sound, ⟨first, h.here, ?_, h.regular⟩, ?_, ?_, ?_, h.creator first, h.sound E first h.here, ?_, ?_⟩
  · rw [h.log]
    rfl
  all_goals simp [h.log, publications, everAt, h.creator]

theorem Starts.unseen (h : Starts E first w) (i : ι) :
    Unseen E first i w :=
  ⟨⟨h.inv, by simp [h.log, publications]⟩, by simp [h.log, snapshotsOf]⟩

/-- No update is lost. -/
structure NoLostUpdate (E : Loc) (first : Nat) (threads : ι → Program (Option Err)) (w : World ι) :
    Prop where
  chain : ∃ current, w.bind E = some current ∧ Linked first (publications E w.log) current
  observed : ∀ p ∈ publications E w.log, ∃ s, p.replaced = some s ∧ snapshotsOf p.run w.log = [s]
  files : (everAt E first w.log).Nodup
  replaced : ((publications E w.log).map Publication.replaced).Nodup
  runs : ((publications E w.log).map Publication.run).Nodup
  result : ∀ i r, threads i = .ret r →
    ((∃ p ∈ publications E w.log, p.run = i) ↔ ∀ err, r = some err → Durability err)

omit [DecidableEq ι] in
/-- What was replaced is what was there before. -/
theorem Linked.replaced {current : Nat} {l : List (Publication ι)} (h : Linked first l current) :
    l.map Publication.replaced = ((l.map Publication.ino ++ [first]).tail).map some := by
  induction l generalizing current with
  | nil => rfl
  | cons p older ih =>
    obtain ⟨-, prev, replaced, linked⟩ := h
    rw [List.map_cons, ih linked, replaced, List.map_cons, List.cons_append, List.tail_cons]
    have head := linked.head
    cases shape : older.map Publication.ino ++ [first] with
    | nil => simp at shape
    | cons q rest =>
      rw [shape] at head
      cases head
      rfl

/-- **No update is lost**: in every interleaving of runs that replace one file, the
published files form a chain, each replaced exactly the file its run had taken a
snapshot of, no file is replaced twice, and a run that is over has published
unless it reports an early error. -/
theorem execute_chain [CaseTable] (names : Names) (E : Loc) (first : Nat) (R : ι → MapRange)
    (tx : ι → Transaction) (request : ∀ i, Replaces names E (tx i)) (w : World ι) (start : Starts E first w)
    (t : Pool ι Call Call.Reply (Option Err) (World ι))
    (reach : PoolRun (fun i => step names i) (Elsewhere E) ⟨fun i => execute (R i) (tx i), w⟩ t) :
    NoLostUpdate E first t.threads t.world := by
  have all : PoolEnsures (fun i => step names i) (fun i => Moves E first (· ≠ i))
      (fun i => Moves E first (· = i)) (fun i => Ended E first i) (Inv E first) t :=
    pool_ensures (moves_compatible E first)
      ⟨start.inv, fun i => execute_ensures names (R i) (request i) (start.unseen i)⟩ reach
  have inv := all.1
  obtain ⟨current, here, linked, -⟩ := inv.current
  refine ⟨⟨current, here, linked⟩, inv.observed, inv.distinct, ?_, inv.once, fun i r done => ?_⟩
  · rw [linked.replaced]
    exact (inv.distinct.sublist (List.tail_sublist _)).map (Option.some_injective _)
  · rcases all.returned (moves_compatible E first) done with ⟨err, failed, early, fresh⟩ | ⟨durable, published⟩
    · refine iff_of_false ?_ fun durable => early (durable err failed)
      rintro ⟨p, mem, mine⟩
      exact fresh.unpublished p mem mine
    · exact iff_of_true published.published durable

end Pool

/-! ## Two runs on one file -/

def oneShared : World Bool where
  bind := oneFile.bind
  node := oneFile.node
  nextIno := 2
  lock _ := none
  creator _ := none
  log := []

theorem oneShared_starts : Starts [lit "bin", lit "app"] 1 oneShared where
  sound := oneFile_sound
  here := by decide +kernel
  regular := by decide +kernel
  creator _ := rfl
  log := rfl

/-- One run takes its snapshot, the other one replaces the file, then the first goes on. -/
def overtaken : List (Bool × Choice) :=
  List.replicate 3 (true, fineChoice) ++ List.replicate 30 (false, fineChoice) ++
    List.replicate 30 (true, fineChoice)

section

local instance replaceTable : CaseTable := CaseTable.ascii

/-- The run that was overtaken fails, and one file was published. -/
theorem execute_chain_overtaken : ∃ t : Pool Bool Call Call.Reply (Option Err) (World Bool),
    (t.threads false).returned.map Option.isNone = some true ∧
    (t.threads true).returned.map Option.isNone = some false ∧
    (publications [lit "bin", lit "app"] t.world.log).length = 1 ∧
    NoLostUpdate [lit "bin", lit "app"] 1 t.threads t.world := by
  have request : ∀ _ : Bool, Replaces plainNames [lit "bin", lit "app"] replaceApp := by
    refine fun _ => ⟨rfl, rfl, by decide +kernel, fun path real => ?_⟩
    cases real
    decide +kernel
  refine ⟨runPool (fun i => step plainNames i) ⟨fun _ => execute .inserted replaceApp, oneShared⟩ overtaken,
    by decide +kernel, by decide +kernel, by decide +kernel, ?_⟩
  exact execute_chain plainNames _ 1 (fun _ => .inserted) (fun _ => replaceApp) request oneShared
    oneShared_starts _ (runPool_run _ _)

end

end Microfat.Lifecycle
