/-
# Microfat.Lifecycle.Metadata — what a published file carries

The calls that set metadata on the staging file may do anything to it: fail, succeed
without effect, or set something else (`wild`).  What is published is what the readback
saw, and the readback compares that with the source.

* `Passed.contract`: a file that passes the checks of the readback keeps the contract;
* `prepare_passed`: a staging file that is ready has passed them;
* `execute_contract`: so has every file a transaction publishes.
-/
import Microfat.Lifecycle.Replace

namespace Microfat.Lifecycle

open Theory

set_option autoImplicit false

/-! ## The contract -/

/-- Capabilities, integrity claims and access control lists. -/
def refusedAttributes : List Bytes :=
  [attrSecurityCapability, attrSecurityIMA, attrSecurityEVM, attrAclAccess, attrAclDefault]

/-- What the published `file` may carry of the metadata of `source`. -/
structure Contract (policy : Policy) (source file : Node) : Prop where
  elevated : file.mode &&& (modeSetuid ||| modeSetgid) = 0
  refused : ∀ a ∈ file.xattrs, a.1 ∉ refusedAttributes
  strict : policy = .strict →
    file.mode &&& chmodModeMask = (source.mode &&& modePerm) ||| (source.mode &&& modeSticky) ∧
    file.uid = source.uid ∧ file.gid = source.gid ∧
    (∀ attr val, source.xattrs.lookup attr = some val → file.xattrs.lookup attr = some val) ∧
    ∀ attr val, file.xattrs.lookup attr = some val →
      attr = attrSecuritySELinux ∨ source.xattrs.lookup attr = some val
  strip : policy = .strip →
    (file.mode &&& chmodModeMask) &&& standardExecMask = file.mode &&& chmodModeMask ∧
    file.mode &&& ownerExecuteMask ≠ 0 ∧ ∀ a ∈ file.xattrs, a.1 = attrSecuritySELinux

/-- The snapshot has the metadata of a file. -/
structure Snapshot.Of (snap : Snapshot) (n : Node) : Prop where
  mode : snap.mode = n.mode
  uid : snap.uid = n.uid
  gid : snap.gid = n.gid
  xattrs : snap.xattrs = n.xattrs

section Readback

variable {R : MapRange} {snap : Snapshot} {policy : Policy} {n : Node} {ino : Nat}

/-- The checks of `verifyReadback`, on what the file is. -/
structure Passed (R : MapRange) (snap : Snapshot) (policy : Policy) (n : Node) (ino : Nat) : Prop where
  info : checkStagedInfo (n.info ino) (targetMode snap policy) snap policy = none
  attributes : (R.order n.xattrs).findSome? (fun a => checkStagedAttribute snap policy a.1) = none
  expected : policy = .strict → (R.order snap.xattrs).findSome? (checkExpectedAttribute n.xattrs) = none

/-- A part of the mode that the mask covers is a part of the masked mode. -/
theorem and_of_masked (mask : Nat) {mode part : Nat} (covered : mask &&& part = part) :
    mode &&& part = (mode &&& mask) &&& part := by
  rw [Nat.and_assoc, covered]

theorem targetMode_strict (snap : Snapshot) :
    targetMode snap .strict &&& (modeSetuid ||| modeSetgid) = 0 := by
  rw [targetMode, ← Nat.and_or_distrib_left, Nat.and_assoc]
  exact Nat.and_zero _

theorem targetMode_strip (snap : Snapshot) :
    targetMode snap .strip &&& standardExecMask = targetMode snap .strip ∧
      targetMode snap .strip &&& ownerExecuteMask ≠ 0 := by
  have within : ∀ m : Nat, ((m &&& modePerm) &&& standardExecMask) &&& standardExecMask =
      (m &&& modePerm) &&& standardExecMask := fun m => by rw [Nat.and_assoc, Nat.and_self]
  have target : targetMode snap .strip =
      if ((snap.mode &&& modePerm) &&& standardExecMask) &&& ownerExecuteMask = 0 then
        ((snap.mode &&& modePerm) &&& standardExecMask) ||| standardExecMask
      else (snap.mode &&& modePerm) &&& standardExecMask := rfl
  rw [target]
  split
  · rw [Nat.and_or_distrib_right, Nat.and_or_distrib_right, within, Nat.and_self]
    refine ⟨rfl, fun none => ?_⟩
    have := (Nat.or_eq_zero_iff.mp none).2
    exact absurd this (by decide)
  · exact ⟨within _, ‹_›⟩

theorem Passed.mode (passed : Passed R snap policy n ino) :
    n.mode &&& chmodModeMask = targetMode snap policy ∧
      (policy = .strict → n.uid = snap.uid ∧ n.gid = snap.gid) := by
  have info := passed.info
  unfold checkStagedInfo at info
  split_ifs at info with empty mode owner
  refine ⟨not_not.mp mode, fun strict => ?_⟩
  simp only [strict, Node.info, decide_true, Bool.true_and, Bool.or_eq_true, not_or] at owner
  exact ⟨by_contra fun ne => owner.1 (decide_eq_true ne), by_contra fun ne => owner.2 (decide_eq_true ne)⟩

theorem Passed.attribute (passed : Passed R snap policy n ino) {a : Bytes × Bytes} (mem : a ∈ n.xattrs) :
    checkStagedAttribute snap policy a.1 = none :=
  List.findSome?_eq_none_iff.mp passed.attributes a ((R.perm n.xattrs).mem_iff.mpr mem)

theorem checkStagedAttribute_none {attr : Bytes} (fine : checkStagedAttribute snap policy attr = none) :
    attr ∉ refusedAttributes ∧
      (attr = attrSecuritySELinux ∨ policy = .strict ∧ (snap.xattrs.lookup attr).isSome = true) := by
  have safe : attrSecuritySELinux ∉ refusedAttributes := by decide +kernel
  unfold checkStagedAttribute at fine
  by_cases selinux : attr = attrSecuritySELinux
  · exact ⟨selinux ▸ safe, .inl selinux⟩
  · cases policy with
    | strip =>
      simp only [if_neg selinux] at fine
      split_ifs at fine
    | strict =>
      simp only [if_neg selinux] at fine
      split_ifs at fine with acl capability claim known
      simp only [Bool.or_eq_true, decide_eq_true_eq, not_or] at acl claim
      exact ⟨by simp [refusedAttributes, acl, capability, claim], .inr ⟨rfl, known⟩⟩

theorem mem_of_lookup {l : List (Bytes × Bytes)} {attr val : Bytes} (found : l.lookup attr = some val) :
    (attr, val) ∈ l := by
  obtain ⟨before, after, rfl, -⟩ := List.lookup_eq_some_iff.mp found
  simp

/-- **A file that passes the readback keeps the contract.** -/
theorem Passed.contract (passed : Passed R snap policy n ino) {source : Node} (of : snap.Of source) :
    Contract policy source n := by
  obtain ⟨mode, owner⟩ := passed.mode
  have refused := fun a mem => checkStagedAttribute_none (passed.attribute (a := a) mem)
  have kept : policy = .strict → ∀ attr val, source.xattrs.lookup attr = some val →
      n.xattrs.lookup attr = some val := by
    intro strict attr val found
    have mem := (R.perm snap.xattrs).mem_iff.mpr (mem_of_lookup (of.xattrs ▸ found))
    have check := List.findSome?_eq_none_iff.mp (passed.expected strict) _ mem
    unfold checkExpectedAttribute at check
    split at check
    · cases check
    · rename_i actual there
      split_ifs at check with same
      rw [there, same]
  refine ⟨?_, fun a mem => (refused a mem).1, fun strict => ?_, fun strip => ?_⟩
  · rw [and_of_masked chmodModeMask (by decide), mode]
    cases policy with
    | strict => exact targetMode_strict snap
    | strip => rw [← (targetMode_strip snap).1, Nat.and_assoc]; exact Nat.and_zero _
  · refine ⟨?_, (owner strict).1.trans of.uid, (owner strict).2.trans of.gid, kept strict, ?_⟩
    · rw [mode, strict, targetMode, of.mode]
    · intro attr val found
      refine (refused _ (mem_of_lookup found)).2.imp id fun known => ?_
      obtain ⟨expected, there⟩ := Option.isSome_iff_exists.mp known.2
      rw [of.xattrs] at there
      rw [there, ← kept strict attr expected there, found]
  · subst strip
    refine ⟨by rw [mode]; exact (targetMode_strip snap).1, ?_, fun a mem => ?_⟩
    · rw [and_of_masked chmodModeMask (by decide), mode]
      exact (targetMode_strip snap).2
    · exact (refused a mem).2.resolve_right fun strict => by cases strict.1

end Readback

/-! ## Calls that do as they please -/

section Runs

variable {ι : Type} [DecidableEq ι] (names : Names) (me : ι) (R : MapRange)

/-- How a call ends, and what a call that sets metadata leaves behind. -/
structure Tampering where
  choice : Choice
  mode : Nat
  uid : Int
  gid : Int
  xattrs : List (Bytes × Bytes)

def tamper (w : World ι) (ino : Nat) (x : Tampering) : World ι :=
  w.setNode ino { w.node ino with mode := x.mode, uid := x.uid, gid := x.gid, xattrs := x.xattrs }

/-- The kernel, but metadata is set at will; listings are complete. -/
def wild (w : World ι) : (c : Call) → Tampering → World ι × c.Reply
  | .fchmod ino _, x | .fchown ino _ _, x | .fremovexattr ino _, x | .fsetxattr ino _ _, x =>
    (tamper w ino x, x.choice.errno)
  | .readXattrs path, x => step names me w (.readXattrs path) { x.choice with skips := [] }
  | .readFdXattrs ino, x => step names me w (.readFdXattrs ino) { x.choice with skips := [] }
  | c, x => step names me w c x.choice

def Call.Publishes : Call → Prop
  | .rename _ _ | .renameNoReplace _ _ | .link _ _ => True
  | _ => False

/-- Nothing has been published in between. -/
def Silent (w w' : World ι) : Prop :=
  ∀ run e old ino, .published run e old ino ∈ w'.log → .published run e old ino ∈ w.log

theorem wild_silent (w : World ι) (c : Call) (x : Tampering) (kind : ¬ c.Publishes) :
    Silent w (wild names me w c x).1 := by
  have noted : ∀ (e : Event ι) (u : World ι), u.log = w.log → (∀ run place old ino, e ≠ .published run place old ino) →
      Silent w (u.note e) := by
    intro e u same other run place old ino mem
    rcases List.mem_cons.mp mem with rfl | there
    · exact absurd rfl (other _ _ _ _)
    · exact same ▸ there
  have same : ∀ u : World ι, u.log = w.log → Silent w u := fun u same _ _ _ _ mem => same ▸ mem
  cases c <;> first
    | exact absurd trivial kind
    | exact same _ rfl
    | skip
  all_goals simp only [wild, step]
  all_goals repeat' split
  all_goals first
    | exact same _ rfl
    | exact same _ (makeDirs_log _ _ _)
    | exact noted _ _ rfl (by simp)

omit [DecidableEq ι] in
theorem Silent.trans {u v w : World ι} (h : Silent u v) (h' : Silent v w) : Silent u w :=
  fun run e old ino mem => h run e old ino (h' run e old ino mem)

theorem leads_silent {α : Type} {p : Program α} (uses : p.Uses fun c => ¬ c.Publishes) (w : World ι) :
    Leads (wild names me) p (fun _ w' => Silent w w') w :=
  leads_uses (fun _ _ _ _ _ mem => mem) (fun _ _ _ => .trans) (wild_silent names me) uses w

/-! ## The source and the staging file -/

/-- The file the source stands for: the one behind the descriptor, or the one the path names. -/
def IsSource (f : Option Nat) (path : Bytes) (w : World ι) (src : Nat) : Prop :=
  match f with
  | some ino => src = ino
  | none => w.follow 40 (names.entry path) = .ok src

theorem takeSourceSnapshot_wild (f : Option Nat) (path : Bytes) (w : World ι) :
    Leads (wild names me) (takeSourceSnapshot f path) (fun r _ => ∀ snap, r = .ok snap →
      ∃ src, IsSource names f path w src ∧ snap.Of (w.node src)) w := by
  cases f with
  | some ino =>
    refine leads_call fun x => ?_
    cases failed : x.choice.errno with
    | some n => simp [wild, step, failed]
    | none =>
      simp only [wild, step, failed]
      refine leads_call fun y => ?_
      cases unlisted : y.choice.errno with
      | some n => simp [wild, step, listing, unlisted]
      | none =>
        simp only [wild, step, listing, unlisted]
        refine leads_call fun _ => ?_
        rintro _ ⟨⟩
        exact ⟨ino, rfl, rfl, rfl, rfl, by simp [FileInfo.snapshot]⟩
  | none =>
    refine leads_call fun x => ?_
    cases failed : x.choice.errno with
    | some n => simp [wild, step, failed]
    | none =>
      simp only [wild, step, failed]
      cases found : w.follow 40 (names.entry path) with
      | error n => simp [Except.map]
      | ok src =>
        refine leads_call fun y => ?_
        cases unlisted : y.choice.errno with
        | some n => simp [wild, step, listing, unlisted, found]
        | none =>
          simp only [wild, step, listing, unlisted, found]
          refine leads_call fun _ => ?_
          rintro _ ⟨⟩
          exact ⟨src, found, rfl, rfl, rfl, by simp [FileInfo.snapshot]⟩

/-- The snapshot of a resolved target is the one that was taken. -/
theorem resolveTargetAndSnapshot_wild (tx : Transaction) (policy : Policy) (w : World ι) :
    Leads (wild names me) (resolveTargetAndSnapshot R tx policy) (fun r _ => ∀ snap dest inPlace,
      r = .ok (snap, dest, inPlace) →
        ∃ src, IsSource names tx.srcFile (cleanPath tx.srcPath) w src ∧ snap.Of (w.node src)) w := by
  refine leads_seq (takeSourceSnapshot_wild names me tx.srcFile (cleanPath tx.srcPath) w) ?_
  rintro (err | snap) w₁ taken
  · simp
  dsimp only
  split
  · simp
  refine leads_call fun x => leads_seq (leads_any _ _) ?_
  rintro (_ | err) w₂ -
  rotate_left
  · simp
  dsimp only
  split
  · refine leads_seq (leads_any _ _) ?_
    rintro (err | dest) w₃ -
    · simp
    · dsimp only
      split
      · simp
      · rintro _ _ _ ⟨⟩
        exact taken snap rfl
  · rintro _ _ _ ⟨⟩
    exact taken snap rfl
  · rintro _ _ _ ⟨⟩
    exact taken snap rfl

section

variable (staged : Staged) (snap : Snapshot) (policy : Policy) (w : World ι)

theorem verifyReadback_wild :
    Leads (wild names me) (verifyReadback R staged (targetMode snap policy) snap policy)
      (fun r w' => w' = w ∧ (r = none → Passed R snap policy (w.node staged.ino) staged.ino)) w := by
  refine leads_call fun x => ?_
  cases failed : x.choice.errno with
  | some n => simp [wild, step, failed]
  | none =>
    simp only [wild, step, failed]
    cases info : checkStagedInfo ((w.node staged.ino).info staged.ino) (targetMode snap policy) snap policy with
    | some err => simp
    | none =>
      refine leads_call fun y => ?_
      cases unlisted : y.choice.errno with
      | some n => simp [wild, step, listing, unlisted]
      | none =>
        simp only [wild, step, listing, unlisted, List.not_mem_nil, not_false_eq_true, decide_true,
          List.filter_true]
        cases attributes : (R.order (w.node staged.ino).xattrs).findSome? (fun a =>
            checkStagedAttribute snap policy a.1) with
        | some err => simp
        | none =>
          refine ⟨rfl, fun accepted => ⟨info, attributes, fun strict => ?_⟩⟩
          rwa [if_pos strict] at accepted

/-- A staging file that is ready has passed the readback. -/
theorem prepare_passed :
    Leads (wild names me) (prepare R staged snap policy)
      (fun r w' => r = none → Passed R snap policy (w'.node staged.ino) staged.ino) w := by
  refine leads_unless (by simp) fun _ => leads_unless (by simp) fun _ => ?_
  refine leads_unless (by simp) fun _ => leads_unless (by simp) fun w₄ => ?_
  refine leads_seq (verifyReadback_wild names me R staged snap policy w₄) ?_
  rintro (_ | err) w ⟨rfl, passed⟩
  rotate_left
  · simp
  refine leads_call fun x => ?_
  show Leads (wild names me) (match x.choice.errno with | some n => _ | none => _) _ w
  cases x.choice.errno with
  | some n => simp
  | none =>
    refine leads_call fun y => ?_
    show Leads (wild names me) (match y.choice.errno with | some n => _ | none => _) _ w
    cases y.choice.errno with
    | some n => simp
    | none => exact fun _ => passed rfl

theorem wild_works {c : Call} (quiet : c.Quiet) (w : World ι) (x : Tampering) :
    (wild names me w c x).1.bind = w.bind ∧ Silent w (wild names me w c x).1 := by
  refine ⟨?_, wild_silent names me w c x ?_⟩
  · rcases quiet with looks | ⟨ino, retouches | rfl⟩
    · cases c <;> first | rfl | cases looks
    · cases c <;> first | rfl | cases retouches
    · simp only [wild, step]
      split <;> rfl
  · rcases quiet with looks | ⟨ino, retouches | rfl⟩
    · cases c <;> first | exact id | cases looks
    · cases c <;> first | exact id | cases retouches
    · exact id

theorem prepare_works :
    Leads (wild names me) (prepare R staged snap policy) (fun _ w' => w'.bind = w.bind ∧ Silent w w') w :=
  leads_uses (T := fun w w' => w'.bind = w.bind ∧ Silent w w') (fun _ => ⟨rfl, fun _ _ _ _ mem => mem⟩)
    (by rintro _ _ _ ⟨same, h⟩ ⟨same', h'⟩; exact ⟨same'.trans same, h.trans h'⟩)
    (fun w _ x kind => wild_works names me kind w x) (prepare_early R staged snap policy) w

end

/-! ## From the staging file to the end -/

variable {staged : Staged} {policy : Policy} {source : Node} {w₀ w : World ι}

/-- Whatever was published since `w₀` keeps the contract. -/
def Fulfils (policy : Policy) (source : Node) (w₀ w : World ι) : Prop :=
  ∀ run e old ino, .published run e old ino ∈ w.log →
    .published run e old ino ∈ w₀.log ∨ Contract policy source (w.node ino)

/-- The staging file is ready, and nothing else has been published. -/
structure Finishing (staged : Staged) (policy : Policy) (source : Node) (w₀ w : World ι) : Prop where
  bound : ∀ j, w.bind (names.entry staged.path) = some j → j = staged.ino
  kept : Contract policy source (w.node staged.ino)
  published : ∀ run e old ino, .published run e old ino ∈ w.log →
    .published run e old ino ∈ w₀.log ∨ ino = staged.ino

def Call.Finishes (staged : Staged) : Call → Prop
  | .rename old _ | .renameNoReplace old _ | .link old _ | .remove old => old = staged.path
  | .stat _ | .close _ | .syncDirectory _ | .unlock _ => True
  | _ => False

namespace Finishing

variable {names}

omit [DecidableEq ι]

section

variable (h : Finishing names staged policy source w₀ w)

include h

theorem fulfils : Fulfils policy source w₀ w :=
  fun run e old ino mem => (h.published run e old ino mem).imp id fun same => by rw [same]; exact h.kept

theorem relink (ino : Nat) (f : Nat → Nat) :
    Finishing names staged policy source w₀ (w.relink ino f) := by
  refine ⟨h.bound, ?_, h.published⟩
  by_cases same : staged.ino = ino
  · subst same
    simp only [World.relink, World.setNode, Function.update_self]
    exact ⟨h.kept.elevated, h.kept.refused, h.kept.strict, h.kept.strip⟩
  · simp only [World.relink, World.setNode, Function.update_of_ne same]
    exact h.kept

theorem setBind (e : Loc) {b : Option Nat} (same : ∀ j, b = some j → j = staged.ino) :
    Finishing names staged policy source w₀ (w.setBind e b) := by
  refine ⟨fun j there => ?_, h.kept, h.published⟩
  by_cases here : names.entry staged.path = e
  · exact same j (by simpa [World.setBind, here] using there)
  · exact h.bound j (by simpa [World.setBind, Function.update_of_ne here] using there)

theorem unbind (e : Loc) : Finishing names staged policy source w₀ (w.setBind e none) :=
  h.setBind e (by simp)

theorem move (old new : Loc) : Finishing names staged policy source w₀ (w.move old new staged.ino) := by
  refine (Finishing.setBind ?_ new fun j same => (Option.some.inj same).symm).unbind old
  split
  · exact h.relink _ _
  · exact h

theorem publish (run : ι) (e : Loc) (old : Option Nat) :
    Finishing names staged policy source w₀ (w.note (.published run e old staged.ino)) := by
  refine ⟨h.bound, h.kept, fun run' e' old' ino mem => ?_⟩
  rcases List.mem_cons.mp mem with same | there
  · cases same
    exact .inr rfl
  · exact h.published run' e' old' ino there

end

end Finishing

theorem wild_finishes {c : Call} (kind : c.Finishes staged) (x : Tampering)
    (h : Finishing names staged policy source w₀ w) :
    Finishing names staged policy source w₀ (wild names me w c x).1 := by
  cases c <;> first
    | exact h
    | exact absurd kind id
    | cases kind
  all_goals
    simp only [wild, step]
    repeat' split
  all_goals first
    | exact h
    | exact ⟨h.bound, h.kept, h.published⟩
    | obtain rfl := h.bound _ ‹_›
  all_goals first
    | exact (h.move _ _).publish _ _ _
    | exact ((h.relink _ _).setBind _ fun j same => (Option.some.inj same).symm).publish _ _ _
    | exact (h.relink _ _).unbind _

theorem leads_finishes {α : Type} {p : Program α} (uses : p.Uses (Call.Finishes staged))
    (h : Finishing names staged policy source w₀ w) :
    Leads (wild names me) p (fun _ w' => Fulfils policy source w₀ w') w :=
  leads_mono (leads_uses (T := fun w w' => Finishing names staged policy source w₀ w →
    Finishing names staged policy source w₀ w') (fun _ => id) (fun _ _ _ h h' => h' ∘ h)
    (fun _ _ x kind => wild_finishes names me kind x) uses w) fun _ _ kept => (kept h).fulfils

theorem publishing_finishes (inPlace : Bool) (destPath : Bytes) (snap : Snapshot) (breakHardlinks : Bool) :
    (publishTransaction inPlace staged.path destPath snap breakHardlinks).Uses (Call.Finishes staged) := by
  unfold publishTransaction publishCreateOnly
  repeat' first
    | exact trivial
    | refine Prog.obeys_call trivial fun _ => ?_
    | refine Prog.obeys_call rfl fun _ => ?_
    | split

omit [DecidableEq ι] in
theorem Silent.fulfils {u : World ι} (before : Silent w₀ w) (after : Silent w u) :
    Fulfils policy source w₀ u :=
  fun run e old ino mem => .inl (before run e old ino (after run e old ino mem))

section

variable (tx : Transaction)

theorem transactStaged_wild {snap : Snapshot} (of : snap.Of source) (destPath : Bytes) (inPlace : Bool)
    (bound : w.bind (names.entry staged.path) = some staged.ino) (before : Silent w₀ w) :
    Leads (wild names me) (transactStaged R tx policy snap destPath inPlace staged)
      (fun _ w' => Fulfils policy source w₀ w') w := by
  refine leads_seq (leads_and (prepare_works names me R staged snap policy w)
    (prepare_passed names me R staged snap policy w)) ?_
  rintro (_ | err) w₁ ⟨⟨same, silent⟩, passed⟩
  · refine leads_finishes names me ?_ (⟨?_, (passed rfl).contract of, ?_⟩ : Finishing names staged _ _ _ _)
    · refine Prog.uses_bind (publishing_finishes _ _ _ _) ?_
      rintro (_ | err)
      · exact Prog.obeys_call trivial fun r => by cases r <;> exact trivial
      · exact Prog.obeys_call trivial fun _ => Prog.obeys_call rfl fun _ => trivial
    · intro j there
      rw [same, bound] at there
      exact (Option.some.inj there).symm
    · exact fun run e old ino mem => .inl (before run e old ino (silent run e old ino mem))
  · refine leads_mono (leads_silent names me ?_ w₁) fun _ _ more => before.fulfils (silent.trans more)
    exact Prog.obeys_call id fun _ => Prog.obeys_call id fun _ => trivial

theorem transact_wild {snap : Snapshot} (of : snap.Of source) (destPath : Bytes) (inPlace : Bool)
    (before : Silent w₀ w) :
    Leads (wild names me) (transact R tx policy snap destPath inPlace)
      (fun _ w' => Fulfils policy source w₀ w') w := by
  refine leads_seq (leads_silent names me (p := mkdirAll _ destPath) ⟨id, fun _ => trivial⟩ w) ?_
  rintro (_ | n) w₁ made
  rotate_left
  · exact before.fulfils made
  refine leads_call fun x => ?_
  have silent := (before.trans made).trans (wild_silent names me w₁ (.createTemp (dirPath destPath)) x id)
  simp only [wild, step] at silent ⊢
  split at silent
  · exact silent.fulfils fun _ _ _ _ mem => mem
  · exact silent.fulfils fun _ _ _ _ mem => mem
  · exact transactStaged_wild names me R tx of destPath inPlace (by simp [World.create, World.note]) silent

theorem resolving_silent : (resolveTargetAndSnapshot R tx policy).Uses fun c => ¬ c.Publishes := by
  unfold resolveTargetAndSnapshot takeSourceSnapshot checkDescriptor
  repeat' first
    | exact trivial
    | exact id
    | refine Prog.obeys_call id fun _ => ?_
    | refine Prog.uses_bind ?_ fun _ => ?_
    | split
    | rw [replaceTarget]

end

theorem locking_silent (path : Bytes) : (acquireAdvisoryLock path).Uses fun c => ¬ c.Publishes := by
  unfold acquireAdvisoryLock
  repeat' first
    | exact trivial
    | refine Prog.obeys_call id fun _ => ?_
    | split

/-- What was published since `w` keeps the contract with the source as it was in `w`. -/
def KeepsContract [CaseTable] (tx : Transaction) (w w' : World ι) : Prop :=
  ∀ run e old ino, .published run e old ino ∈ w'.log → .published run e old ino ∉ w.log →
    ∃ policy src, parsePolicy tx.policy = .ok policy ∧
      IsSource names tx.srcFile (cleanPath tx.srcPath) w src ∧ Contract policy (w.node src) (w'.node ino)

omit [DecidableEq ι] in
theorem Silent.keeps [CaseTable] {tx : Transaction} {u : World ι} (silent : Silent w u) :
    KeepsContract names tx w u :=
  fun run e old ino mem fresh => absurd (silent run e old ino mem) fresh

/-- **What a transaction publishes keeps the contract**, whatever the calls that set
metadata did to it. -/
theorem execute_contract [CaseTable] (tx : Transaction) (w w' : World ι) (outcomes : List Tampering)
    (r : Option Err) (ran : (execute R tx).runWith (wild names me) w outcomes = some (r, w')) :
    KeepsContract names tx w w' := by
  refine (?_ : Leads (wild names me) (execute R tx) (fun _ => KeepsContract names tx w) w).outcome ran
  have idle : KeepsContract names tx w w := Silent.keeps names fun _ _ _ _ mem => mem
  rw [execute]
  split
  · exact idle
  split
  · exact idle
  split
  · exact idle
  split
  · exact idle
  cases parsed : parsePolicy tx.policy with
  | error err => exact idle
  | ok policy =>
  refine leads_seq (leads_and (leads_silent names me (resolving_silent R tx) w)
    (resolveTargetAndSnapshot_wild names me R tx policy w)) ?_
  rintro (err | ⟨snap, destPath, inPlace⟩) w₁ ⟨silent, taken⟩
  · exact silent.keeps names
  obtain ⟨src, source, of⟩ := taken snap destPath inPlace rfl
  have done : ∀ {u : World ι}, Fulfils policy (w.node src) w u → KeepsContract names tx w u :=
    fun fulfilled run e old ino mem fresh =>
      ⟨policy, src, parsed, source, (fulfilled run e old ino mem).resolve_left fresh⟩
  refine leads_call fun x => ?_
  have noted := silent.trans (wild_silent names me w₁ (.resolved destPath) x id)
  split
  · refine leads_seq (leads_silent names me (locking_silent destPath) _) ?_
    rintro (err | lock) w₂ locked
    · exact (noted.trans locked).keeps names
    refine leads_seq (transact_wild names me R tx of destPath true (noted.trans locked)) ?_
    intro r u fulfilled
    refine leads_call fun y => ?_
    simp only [wild, step]
    split <;> exact done fulfilled
  · exact leads_mono (transact_wild names me R tx of destPath false noted) fun _ _ => done

end Runs

section

local instance metadataTable : CaseTable := CaseTable.ascii

/-- `/bin/app` with an extended attribute. -/
def taggedFile : World Unit :=
  oneFile.setNode 1 ⟨.regular, lit "old", 0o755, 7, 7, [(lit "user.tag", lit "x")], 2, 1⟩

def replaceUnder (policy : Bytes) : Transaction := { replaceApp with policy }

/-- Every call says that it succeeded, and leaves this mode and these attributes behind. -/
def leaving (mode : Nat) (xattrs : List (Bytes × Bytes)) : Tampering := ⟨fineChoice, mode, 7, 7, xattrs⟩

/-- A strict run that kept the attribute and a strip run that dropped it publish; one whose
calls left a file that others may write does not. -/
theorem execute_contract_replace :
    (∃ w', (execute .inserted (replaceUnder [])).runWith (wild plainNames ()) taggedFile
        (List.replicate 30 (leaving 0o755 [(lit "user.tag", lit "x")])) = some (none, w') ∧
      KeepsContract plainNames (replaceUnder []) taggedFile w') ∧
    (∃ w', (execute .inserted (replaceUnder (lit "strip"))).runWith (wild plainNames ()) taggedFile
        (List.replicate 30 (leaving 0o755 [])) = some (none, w') ∧
      KeepsContract plainNames (replaceUnder (lit "strip")) taggedFile w') ∧
    ∃ err w', (execute .inserted (replaceUnder (lit "strip"))).runWith (wild plainNames ()) taggedFile
        (List.replicate 30 (leaving 0o777 [])) = some (some err, w') ∧
      KeepsContract plainNames (replaceUnder (lit "strip")) taggedFile w' := by
  have ends : ∀ policy xs (good : Option Err → Bool),
      ((execute .inserted (replaceUnder policy)).runWith (wild plainNames ()) taggedFile xs).any
        (fun r => good r.1) = true →
      ∃ r w', (execute .inserted (replaceUnder policy)).runWith (wild plainNames ()) taggedFile xs = some (r, w') ∧
        good r = true ∧ KeepsContract plainNames (replaceUnder policy) taggedFile w' := by
    intro policy xs good ended
    obtain ⟨⟨r, w'⟩, ran, fine⟩ := (Option.any_eq_true ..).mp ended
    exact ⟨r, w', ran, fine, execute_contract plainNames () .inserted (replaceUnder policy) taggedFile w' _ r ran⟩
  obtain ⟨r, kept, keptRan, done, keeps⟩ := ends []
    (List.replicate 30 (leaving 0o755 [(lit "user.tag", lit "x")])) Option.isNone (by decide +kernel)
  obtain rfl := Option.isNone_iff_eq_none.mp done
  obtain ⟨r, bare, bareRan, done, drops⟩ := ends (lit "strip")
    (List.replicate 30 (leaving 0o755 [])) Option.isNone (by decide +kernel)
  obtain rfl := Option.isNone_iff_eq_none.mp done
  obtain ⟨r, left, leftRan, failed, refuses⟩ := ends (lit "strip")
    (List.replicate 30 (leaving 0o777 [])) Option.isSome (by decide +kernel)
  obtain ⟨err, rfl⟩ := Option.isSome_iff_exists.mp failed
  exact ⟨⟨kept, keptRan, keeps⟩, ⟨bare, bareRan, drops⟩, err, left, leftRan, refuses⟩

end

end Microfat.Lifecycle
