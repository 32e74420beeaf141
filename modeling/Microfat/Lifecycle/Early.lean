/-
# Microfat.Lifecycle.Early — errors before and after the publication

Only the last call of a transaction can fail after the publication, and its error is
built in one place (`durabilityError`).  Every other error of every part has
another shape (`Early`), so the result of a run tells the two kinds apart.  Each part
is gone through once, for its errors and for the calls it makes.
-/
import Microfat.Lifecycle.Transaction

namespace Microfat.Lifecycle

open Theory
open Prog (obeys_call obeys_bind)

set_option autoImplicit false

/-! ## Kinds of calls -/

variable {c : Call} {ino : Nat}

/-- The call reports and changes nothing. -/
def Call.Looks : Call → Prop
  | .stat _ | .fstat _ | .readXattrs _ | .readFdXattrs _ | .evalSymlinks _ | .openRead _ | .fsync _
  | .close _ | .syncDirectory _ => True
  | _ => False

/-- The call looks, or sets metadata of the file. -/
def Call.Retouches (ino : Nat) : Call → Prop
  | .stat _ | .fstat _ | .readXattrs _ | .readFdXattrs _ | .fsync _ | .close _ => True
  | .fchmod j _ | .fchown j _ _ | .fremovexattr j _ | .fsetxattr j _ _ => j = ino
  | _ => False

/-- The call changes no entry and no lock. -/
def Call.Quiet (c : Call) : Prop := c.Looks ∨ ∃ ino, c.Retouches ino ∨ c = .transform ino

theorem Call.Retouches.quiet (h : c.Retouches ino) : c.Quiet := .inr ⟨ino, .inl h⟩

theorem Call.Looks.quiet (h : c.Looks) : c.Quiet := .inl h

/-! ## Errors before the publication -/

/-- The error that is returned after the publication. -/
def Durability (err : Err) : Prop := ∃ dir n, err = durabilityError dir n

/-- A result that is not that error. -/
def Early (r : Option Err) : Prop := ∀ err, r = some err → ¬ Durability err

theorem early_none : Early none := by simp [Early]

theorem early_about (s : Sentinel) (message : List Part) : Early (some (.about s message)) := by
  rintro _ ⟨⟩ ⟨dir, n, same⟩
  simp [GoError.about, durabilityError, GoError.wrap] at same

theorem early_message {part : Part} {message : List Part} {causes : List Err} (other : part ≠ .cause) :
    Early (some (.wrap (part :: message) causes)) := by
  rintro _ ⟨⟩ ⟨dir, n, same⟩
  simp [durabilityError, GoError.wrap, other] at same

theorem early_sentinel (s : Sentinel) : Early (some (.sentinel s)) := by
  rintro _ ⟨⟩ ⟨dir, n, same⟩
  simp [durabilityError, GoError.wrap] at same

theorem early_wrapping {s : Sentinel} {message : List Part} {causes : List Err}
    (other : s ≠ .errDurabilitySyncFailed) :
    Early (some (.wrap message (.sentinel s :: causes))) := by
  rintro _ ⟨⟩ ⟨dir, n, same⟩
  simp [durabilityError, GoError.wrap, other] at same

theorem early_new (text : String) : Early (some (.new text)) := by
  rintro _ ⟨⟩ ⟨dir, n, same⟩
  simp [durabilityError, GoError.wrap, GoError.new] at same

theorem early_findSome {α : Type} {f : α → Option Err} (all : ∀ a, Early (f a)) (l : List α) :
    Early (l.findSome? f) := by
  intro err found
  obtain ⟨a, -, here⟩ := List.exists_of_findSome?_eq_some found
  exact all a err here

theorem early_ite {c : Prop} [Decidable c] {a b : Option Err} (first : Early a) (second : Early b) :
    Early (if c then a else b) := by
  split
  · exact first
  · exact second

section Early

variable (R : MapRange)

theorem removeFdXattr_early (ino : Nat) (attr : Bytes) :
    (removeFdXattr ino attr).Obeys (Call.Retouches ino) Early := by
  refine obeys_call rfl ?_
  rintro (_ | n)
  · exact early_none
  · exact early_ite early_none (early_sentinel _)

section

variable (staged : Staged)

theorem stripInheritedStagingACLs_early :
    (stripInheritedStagingACLs staged).Obeys (Call.Retouches staged.ino) Early := by
  refine obeys_bind (removeFdXattr_early _ _) ?_
  rintro (_ | err) early
  · exact removeFdXattr_early _ _
  · exact early

section

variable (snap : Snapshot)

theorem preserveOwnership_early :
    (preserveOwnership staged snap).Obeys (Call.Retouches staged.ino) Early := by
  refine obeys_call rfl ?_
  rintro (_ | failed)
  · exact early_none
  · refine obeys_call trivial ?_
    rintro (n | fi)
    · exact early_wrapping (by decide)
    · exact early_ite (early_wrapping (by decide)) early_none

theorem setXattrs_early (attrs : List (Bytes × Bytes)) :
    (setXattrs staged attrs).Obeys (Call.Retouches staged.ino) Early := by
  induction attrs with
  | nil => exact early_none
  | cons a rest ih =>
    refine obeys_call rfl ?_
    rintro (_ | n)
    · exact ih
    · exact early_message (by decide)

theorem applyMetadata_early (policy : Policy) :
    (applyMetadata R staged snap policy).Obeys (Call.Retouches staged.ino) Early := by
  refine obeys_bind (stripInheritedStagingACLs_early staged) ?_
  rintro (_ | err) early
  · refine obeys_bind (S := Early) ?_ ?_
    · cases policy with
      | strip => exact early_none
      | strict =>
        refine obeys_bind (preserveOwnership_early staged snap) ?_
        rintro (_ | err) early
        · exact setXattrs_early staged _
        · exact early
    · rintro (_ | err) early
      · refine obeys_call rfl ?_
        rintro (_ | n)
        · exact early_none
        · exact early_message (by decide)
      · exact early
  · exact early

theorem checkStagedInfo_early (fi : FileInfo) (target : Nat) (snap : Snapshot) (policy : Policy) :
    Early (checkStagedInfo fi target snap policy) :=
  early_ite (early_about _ _) (early_ite (early_about _ _) (early_ite (early_about _ _) early_none))

theorem checkStagedAttribute_early (policy : Policy) (attr : Bytes) :
    Early (checkStagedAttribute snap policy attr) := by
  refine early_ite (early_about _ _) (early_ite (early_about _ _) (early_ite (early_about _ _)
    (early_ite early_none ?_)))
  cases policy with
  | strip => exact early_about _ _
  | strict => exact early_ite early_none (early_about _ _)

theorem checkExpectedAttribute_early (attrs : List (Bytes × Bytes)) (a : Bytes × Bytes) :
    Early (checkExpectedAttribute attrs a) := by
  rw [checkExpectedAttribute]
  split
  · exact early_about _ _
  · exact early_ite early_none (early_about _ _)

theorem verifyReadback_early (target : Nat) (snap : Snapshot) (policy : Policy) :
    (verifyReadback R staged target snap policy).Obeys Call.Looks Early := by
  refine obeys_call trivial ?_
  rintro (n | fi)
  · exact early_wrapping (by decide)
  · have info := checkStagedInfo_early fi target snap policy
    dsimp only
    split
    · rename_i err failed
      exact failed ▸ info
    · refine obeys_call trivial ?_
      rintro (n | attrs)
      · exact early_wrapping (by decide)
      · have found := early_findSome (fun a => checkStagedAttribute_early snap policy a.1) (R.order attrs)
        dsimp only
        split
        · rename_i err failed
          exact failed ▸ found
        · exact early_ite (early_findSome (checkExpectedAttribute_early attrs) _) early_none

theorem prepare_early (policy : Policy) :
    (prepare R staged snap policy).Obeys Call.Quiet Early := by
  refine obeys_call (.inr ⟨staged.ino, .inl rfl⟩) ?_
  rintro (_ | n)
  rotate_left
  · exact early_wrapping (by decide)
  refine obeys_bind ((stripInheritedStagingACLs_early staged).mono fun _ => Call.Retouches.quiet) ?_
  rintro (_ | err) early
  rotate_left
  · exact early_wrapping (by decide)
  refine obeys_call (.inr ⟨staged.ino, .inr rfl⟩) ?_
  rintro (_ | err)
  rotate_left
  · exact early_message (by decide)
  refine obeys_bind ((applyMetadata_early R staged snap policy).mono fun _ => Call.Retouches.quiet) ?_
  rintro (_ | err) early
  rotate_left
  · exact early
  refine obeys_bind ((verifyReadback_early R staged _ snap policy).mono fun _ => Call.Looks.quiet) ?_
  rintro (_ | err) early
  rotate_left
  · exact early
  refine obeys_call (.inl trivial) ?_
  rintro (_ | n)
  rotate_left
  · exact early_message (by decide)
  refine obeys_call (.inl trivial) ?_
  rintro (_ | n)
  · exact early_none
  · exact early_message (by decide)

end

end

theorem publishCreateOnly_early (stagedPath destPath : Bytes) :
    (publishCreateOnly stagedPath destPath).Returns Early := by
  refine obeys_call trivial ?_
  rintro (_ | n)
  · exact early_none
  · dsimp only
    split
    · exact early_about _ _
    · split
      · refine obeys_call trivial ?_
        rintro (_ | n)
        · exact obeys_call trivial fun _ => early_none
        · dsimp only
          split
          · exact early_about _ _
          · exact early_message (by decide)
      · exact early_message (by decide)

theorem publishTransaction_early (inPlace : Bool) (stagedPath destPath : Bytes) (snap : Snapshot)
    (breakHardlinks : Bool) :
    (publishTransaction inPlace stagedPath destPath snap breakHardlinks).Returns Early := by
  rw [publishTransaction]
  split
  · refine obeys_call trivial ?_
    rintro (n | fi)
    · exact early_wrapping (by decide)
    · have target : Early (checkTarget fi destPath snap breakHardlinks) :=
        early_ite (early_about _ _) (early_ite (early_about _ _) early_none)
      dsimp only
      split
      · rename_i err failed
        exact failed ▸ target
      · refine obeys_call trivial ?_
        rintro (_ | n)
        · exact early_none
        · exact early_message (by decide)
  · exact publishCreateOnly_early _ _

/-- The same for a result with a value. -/
def EarlyError {α : Type} (r : Except Err α) : Prop := ∀ err, r = .error err → Early (some err)

theorem earlyError_ok {α : Type} (a : α) : EarlyError (.ok a : Except Err α) := by simp [EarlyError]

theorem earlyError_error {α : Type} {err : Err} (early : Early (some err)) :
    EarlyError (.error err : Except Err α) := by
  rintro _ ⟨⟩
  exact early

theorem parsePolicy_early [CaseTable] {raw : Bytes} {err : Err} (failed : parsePolicy raw = .error err) :
    Early (some err) := by
  rw [parsePolicy] at failed
  split_ifs at failed
  cases failed
  exact early_about _ _

theorem takeSourceSnapshot_early (f : Option Nat) (path : Bytes) :
    (takeSourceSnapshot f path).Returns EarlyError := by
  -- the two cases differ in the calls only
  cases f
  all_goals
    refine obeys_call trivial ?_
    rintro (n | fi)
    · exact earlyError_error (early_message (by decide))
    · refine obeys_call trivial ?_
      rintro (n | xattrs)
      · exact earlyError_error (early_message (by decide))
      · exact obeys_call trivial fun _ => earlyError_ok _

theorem validateSnapshot_early (snap : Snapshot) (policy : Policy) :
    Early (validateSnapshot R snap policy) := by
  have each : ∀ a : Bytes × Bytes, Early (validateAttribute snap.path a.1) := fun a =>
    early_ite (early_about _ _) (early_ite (early_about _ _) (early_ite early_none (early_about _ _)))
  cases policy with
  | strip => exact early_none
  | strict => exact early_ite (early_about _ _) (early_findSome each _)

section

variable (tx : Transaction)

theorem checkDescriptor_early (snap : Snapshot) (realSrc : Bytes) :
    (checkDescriptor tx snap realSrc).Obeys Call.Looks Early := by
  rw [checkDescriptor]
  split
  · exact early_none
  · refine obeys_call trivial ?_
    rintro (n | fi)
    · exact early_wrapping (by decide)
    · exact early_ite (early_about _ _) early_none

theorem replaceTarget_early (snap : Snapshot) (cleanSrc realSrc : Bytes) :
    (replaceTarget tx snap cleanSrc realSrc).Obeys Call.Looks EarlyError := by
  rw [replaceTarget]
  split
  · exact earlyError_ok _
  · refine obeys_call trivial ?_
    rintro (n | fi)
    · exact earlyError_error (early_message (by decide))
    · dsimp only
      split
      · refine earlyError_error ?_
        rintro _ ⟨⟩ ⟨dir, n, same⟩
        simp [durabilityError, GoError.wrap] at same
      · exact earlyError_ok _

theorem resolveTargetAndSnapshot_early (policy : Policy) :
    (resolveTargetAndSnapshot R tx policy).Returns EarlyError := by
  refine obeys_bind (takeSourceSnapshot_early _ _) ?_
  rintro (err | snap) early
  · exact earlyError_error (early err rfl)
  · have valid := validateSnapshot_early R snap policy
    dsimp only
    split
    · rename_i err failed
      exact earlyError_error (failed ▸ valid)
    · refine obeys_call trivial fun realPath => ?_
      refine obeys_bind ((checkDescriptor_early _ _ _).mono fun _ _ => trivial) ?_
      rintro (_ | err) early
      · dsimp only
        split
        · refine obeys_bind ((replaceTarget_early _ _ _ _).mono fun _ _ => trivial) ?_
          rintro (err | destPath) early
          · exact earlyError_error (early err rfl)
          · dsimp only
            split
            · exact earlyError_error (early_about _ _)
            · exact earlyError_ok _
        · exact earlyError_ok _
        · exact earlyError_ok _
      · exact earlyError_error early

end

theorem acquireAdvisoryLock_early (path : Bytes) : (acquireAdvisoryLock path).Returns EarlyError := by
  refine obeys_call trivial ?_
  rintro (n | ino)
  · exact earlyError_error (early_message (by decide))
  · refine obeys_call trivial ?_
    rintro (_ | n)
    · exact earlyError_ok _
    · refine earlyError_error ?_
      split
      · exact early_about _ _
      · exact early_message (by decide)

end Early

end Microfat.Lifecycle
