/-
# Microfat.Theory.Meter — fallible code that charges accounts

`Metered S E α` is trap-aware code (`Eval`) that also threads a state `S`: the
accounts a parser charges while it reads.  Such code usually refuses before an
account could be overdrawn, so what a parser establishes about its *result* does
not depend on the accounts it started with.  `Sure m post` says just that: from
every state, `m` does not trap, and a value it returns satisfies `post`.

Unsigned 64-bit arithmetic is `Nat` arithmetic that traps where the machine
would wrap around.
-/
import Microfat.Theory.Eval

namespace Microfat.Theory

set_option autoImplicit false

/-! ## Unsigned 64-bit arithmetic -/

section Unsigned

variable {E : Type}

def addU64 (a b : Nat) : Eval E Nat :=
  if a + b < 2 ^ 64 then .ok (a + b) else .error (.trap .wrap)

def subU64 (a b : Nat) : Eval E Nat :=
  if b ≤ a then .ok (a - b) else .error (.trap .wrap)

def mulU64 (a b : Nat) : Eval E Nat :=
  if a * b < 2 ^ 64 then .ok (a * b) else .error (.trap .wrap)

variable {a b c : Nat}

theorem addU64_of_lt (fits : a + b < 2 ^ 64) : (addU64 a b : Eval E Nat) = .ok (a + b) := if_pos fits

theorem subU64_of_le (ordered : b ≤ a) : (subU64 a b : Eval E Nat) = .ok (a - b) := if_pos ordered

theorem mulU64_eq_ok (h : (mulU64 a b : Eval E Nat) = .ok c) : c = a * b := by
  unfold mulU64 at h
  split at h <;> cases h
  rfl

theorem yields_addU64 (fits : a + b < 2 ^ 64) : Eval.Yields (addU64 a b : Eval E Nat) fun c => c = a + b := by
  rw [addU64_of_lt fits]
  exact Eval.yields_ok rfl

theorem yields_subU64 (ordered : b ≤ a) : Eval.Yields (subU64 a b : Eval E Nat) fun c => c = a - b := by
  rw [subU64_of_le ordered]
  exact Eval.yields_ok rfl

theorem yields_mulU64 (fits : a * b < 2 ^ 64) : Eval.Yields (mulU64 a b : Eval E Nat) fun c => c = a * b := by
  rw [mulU64, if_pos fits]
  exact Eval.yields_ok rfl

end Unsigned

variable {c : Prop}

namespace Eval

variable {E α : Type}

@[simp] theorem ofExcept_ok (a : α) : (ofExcept (.ok a) : Eval E α) = .ok a := rfl

theorem ofExcept_eq_ok {x : Except E α} {a : α} (returned : (ofExcept x : Eval E α) = .ok a) : x = .ok a := by
  cases x with
  | ok b =>
    cases returned
    rfl
  | error e => cases returned

theorem ofExcept_safe (x : Except E α) : (ofExcept x : Eval E α).Safe := by
  cases x with
  | ok a => exact safe_ok a
  | error e => exact safe_fail e

theorem ofExcept_bind {β : Type} (x : Except E α) (f : α → Except E β) :
    ofExcept (x >>= f) = ofExcept x >>= fun a => ofExcept (f a) := by
  cases x <;> rfl

variable {x : Eval E α}

theorem Yields.mono {P Q : α → Prop} (h : Yields x P) (weaken : ∀ a, P a → Q a) :
    Yields x Q :=
  ⟨h.1, fun a same => weaken a (h.2 a same)⟩

theorem yields_fail (e : E) (post : α → Prop) : Yields (fail e : Eval E α) post :=
  ⟨safe_fail e, fun _ same => absurd same (fail_ne_ok e _)⟩

/-- A guard on a proposition: past it, the proposition is false. -/
theorem yields_refuse [Decidable c] (e : E) : Yields (guard (decide c) e) fun _ => ¬ c :=
  (yields_guard _ e).mono fun _ passed => of_decide_eq_false passed

theorem yields_ite [Decidable c] {y : Eval E α} {post : α → Prop} (yes : c → Yields x post)
    (no : ¬ c → Yields y post) : Yields (if c then x else y) post := by
  split
  · exact yes ‹_›
  · exact no ‹_›

/-- The code may trap in the ways of `allowed` alone, and a value it returns satisfies `post`. -/
def Traps (allowed : Trap → Prop) (x : Eval E α) (post : α → Prop) : Prop :=
  (∀ t, x = .error (.trap t) → allowed t) ∧ ∀ a, x = .ok a → post a

variable {allowed : Trap → Prop} {post : α → Prop}

theorem Yields.traps (h : Yields x post) : Traps allowed x post :=
  ⟨fun t trapped => absurd trapped (h.1 t), h.2⟩

theorem Traps.yields (h : Traps (fun _ => False) x post) : Yields x post := h

theorem Traps.bind {β : Type} {f : α → Eval E β} {mid : α → Prop} {post : β → Prop}
    (head : Traps allowed x mid) (tail : ∀ a, mid a → Traps allowed (f a) post) : Traps allowed (x >>= f) post := by
  cases x with
  | ok a => exact tail a (head.2 a rfl)
  | error fault => exact ⟨fun t trapped => head.1 t (by cases trapped; rfl), nofun⟩

theorem traps_slice {data : Bytes} {lo hi : Nat} (inside : ¬ allowed .bounds → lo ≤ hi ∧ hi ≤ data.length) :
    Traps allowed (slice data lo hi : Eval E Bytes) fun bs =>
      lo ≤ hi ∧ hi ≤ data.length ∧ bs = (data.drop lo).take (hi - lo) := by
  unfold slice
  split
  · rename_i within
    exact (yields_ok ⟨within.1, within.2, rfl⟩).traps
  · rename_i outside
    exact ⟨fun t trapped => by cases trapped; exact not_not.mp (mt inside outside), nofun⟩

end Eval

/-! ## Metered code -/

/-- Code that may fail or trap and that threads the accounts `S`.  A failure
leaves the accounts as they were charged until then. -/
def Metered (S E α : Type) := S → Eval E α × S

namespace Metered

variable {S E α β : Type}

instance : Monad (Metered S E) where
  pure a := fun s => (.ok a, s)
  bind m f := fun s => match m s with
    | (.ok a, t) => f a t
    | (.error fault, t) => (.error fault, t)

theorem bind_apply (m : Metered S E α) (f : α → Metered S E β) (s : S) :
    (m >>= f) s = match m s with
      | (.ok a, t) => f a t
      | (.error fault, t) => (.error fault, t) := rfl

instance : LawfulMonad (Metered S E) := LawfulMonad.mk' _
  (fun m => by
    funext s
    change (m >>= pure) s = m s
    rw [bind_apply]
    rcases m s with ⟨fault | a, t⟩ <;> rfl)
  (fun _ _ => rfl)
  (fun m f g => by
    funext s
    rw [bind_apply, bind_apply, bind_apply]
    rcases m s with ⟨fault | a, t⟩ <;> rfl)

variable {m : Metered S E α} {f : α → Metered S E β} {s : S}

variable {a : α}

theorem bind_of_ok (returned : (m s).1 = .ok a) : (m >>= f) s = f a (m s).2 := by
  rw [bind_apply]
  revert returned
  rcases m s with ⟨fault | a', t⟩ <;> intro returned <;> cases returned
  rfl

/-- A step that touches no account. -/
def lift (x : Eval E α) : Metered S E α := fun s => (x, s)

/-- The accounts as they are now. -/
def read : Metered S E S := fun s => (.ok s, s)

/-- A step that updates the accounts, or refuses and leaves them. -/
def charge (f : S → Eval E S) : Metered S E Unit := fun s =>
  match f s with
  | .ok t => (.ok (), t)
  | .error fault => (.error fault, s)

/-- From every state the code does not trap, and what it returns satisfies `post`. -/
def Sure (m : Metered S E α) (post : α → Prop) : Prop := ∀ s, Eval.Yields (m s).1 post

variable {post : α → Prop}

theorem sure_pure (h : post a) : Sure (pure a : Metered S E α) post :=
  fun _ => Eval.yields_ok h

theorem Sure.bind {mid : α → Prop} {post : β → Prop} (head : Sure m mid)
    (tail : ∀ a, mid a → Sure (f a) post) : Sure (m >>= f) post := by
  intro s
  have first := head s
  rw [bind_apply]
  revert first
  rcases m s with ⟨fault | a, t⟩ <;> intro first
  · exact ⟨fun trap same => first.1 trap (by cases same; rfl), nofun⟩
  · exact tail a (first.2 a rfl) t

theorem sure_lift {x : Eval E α} (h : Eval.Yields x post) :
    Sure (lift x : Metered S E α) post :=
  fun _ => h

theorem sure_read : Sure (read : Metered S E S) fun _ => True :=
  fun _ => Eval.yields_ok trivial

theorem sure_charge {f : S → Eval E S} (safe : ∀ s, (f s).Safe) :
    Sure (charge f) fun _ => True := by
  intro s
  have noTrap := safe s
  unfold charge
  split
  · exact Eval.yields_ok trivial
  · rename_i fault failed
    exact ⟨fun trap same => noTrap trap (by rw [failed]; cases same; rfl), nofun⟩

theorem Sure.mono {P Q : α → Prop} (h : Sure m P) (weaken : ∀ a, P a → Q a) :
    Sure m Q :=
  fun s => (h s).mono weaken

/-- A fold over a list, by what is known after a front of it. -/
theorem sure_foldlM {δ : Type} {visit : α → δ → Metered S E α} {I : List δ → α → Prop}
    (step : ∀ done acc d, I done acc → Sure (visit acc d) (I (done ++ [d]))) : ∀ (ds done : List δ) (acc : α),
    I done acc → Sure (ds.foldlM visit acc) (I (done ++ ds)) := by
  intro ds
  induction ds with
  | nil =>
    intro done acc held
    rw [List.append_nil]
    exact sure_pure held
  | cons d ds ih =>
    intro done acc held
    refine (step done acc d held).bind fun acc' held' => ?_
    have rest := ih (done ++ [d]) acc' held'
    rwa [List.append_assoc, List.singleton_append] at rest

variable {n : Metered S E α}

theorem sure_ite [Decidable c] (yes : c → Sure m post) (no : ¬ c → Sure n post) :
    Sure (if c then m else n) post := by
  split
  · exact yes ‹_›
  · exact no ‹_›

theorem sure_fail (e : E) (post : α → Prop) :
    Sure (lift (Eval.fail e) : Metered S E α) post :=
  sure_lift (Eval.yields_fail e post)

/-- `if bad { return err }`. -/
def guard (bad : Bool) (e : E) : Metered S E Unit := lift (Eval.guard bad e)

theorem sure_guard (bad : Bool) (e : E) :
    Sure (guard bad e : Metered S E Unit) fun _ => bad = false :=
  sure_lift (Eval.yields_guard bad e)

theorem sure_refuse [Decidable c] (e : E) :
    Sure (guard (decide c) e : Metered S E Unit) fun _ => ¬ c :=
  sure_lift (Eval.yields_refuse e)

/-! The same steps, each with the code after it. -/

section Steps

variable {post : β → Prop} {f : Unit → Metered S E β} {e : E}

theorem Sure.lift {mid : α → Prop} {x : Eval E α} {f : α → Metered S E β} (head : Eval.Yields x mid)
    (tail : ∀ a, mid a → Sure (f a) post) : Sure (Metered.lift x >>= f) post :=
  (sure_lift head).bind tail

theorem Sure.guarded {bad : Bool} (tail : bad = false → Sure (f ()) post) : Sure (guard bad e >>= f) post :=
  (sure_guard bad e).bind fun _ => tail

theorem Sure.refused [Decidable c] (tail : ¬ c → Sure (f ()) post) : Sure (guard (decide c) e >>= f) post :=
  (sure_refuse e).bind fun _ => tail

end Steps

/-! ### Single runs -/

variable {t : S} {bad : Bool}

/-- From `s` the code returns `a` and leaves `t`. -/
def Runs (m : Metered S E α) (s : S) (a : α) (t : S) : Prop := m s = (.ok a, t)

/-- From `s` the code ends with an ordinary error. -/
def Refuses (m : Metered S E α) (s : S) : Prop := ∃ e t, m s = (.error (.error e), t)

theorem Runs.bind_eq (head : Runs m s a t) (f : α → Metered S E β) : (m >>= f) s = f a t := by
  have returned : (m s).1 = .ok a := by rw [head]
  rw [bind_of_ok returned, head]

theorem Runs.bind {u : S} {b : β} (head : Runs m s a t) (tail : Runs (f a) t b u) :
    Runs (m >>= f) s b u := by
  rw [Runs, head.bind_eq]
  exact tail

theorem Runs.refuses (head : Runs m s a t) (tail : Refuses (f a) t) : Refuses (m >>= f) s := by
  rw [Refuses, head.bind_eq]
  exact tail

theorem Refuses.bind (f : α → Metered S E β) (head : Refuses m s) :
    Refuses (m >>= f) s := by
  obtain ⟨e, t, failed⟩ := head
  refine ⟨e, t, ?_⟩
  rw [bind_apply, failed]

theorem runs_lift {x : Eval E α} (returned : x = .ok a) (s : S) : Runs (lift x) s a s := by
  rw [Runs, lift, returned]

theorem refuses_fail (e : E) (s : S) : Refuses (lift (Eval.fail e) : Metered S E α) s := ⟨e, s, rfl⟩

theorem runs_guard (e : E) (good : bad = false) (s : S) :
    Runs (guard bad e) s () s := runs_lift (Eval.guard_pass good) s

theorem refuses_guard (e : E) (held : bad = true) (s : S) : Refuses (guard bad e) s := by
  subst held
  exact ⟨e, s, rfl⟩

theorem runs_charge {f : S → Eval E S} (paid : f s = .ok t) : Runs (charge f) s () t := by
  rw [Runs, charge, paid]

theorem refuses_charge {f : S → Eval E S} {e : E} (refused : f s = .fail e) :
    Refuses (charge f) s := by
  refine ⟨e, s, ?_⟩
  rw [charge, refused]
  rfl

theorem Refuses.not_ok (refused : Refuses m s) (a : α) : (m s).1 ≠ .ok a := by
  obtain ⟨e, t, failed⟩ := refused
  rw [failed]
  nofun

/-! ### Assertions on the accounts -/

/-- From accounts in `P` the code returns with accounts in `Q`, or fails with accounts in `F`. -/
def Triple (P : S → Prop) (m : Metered S E α) (Q : α → S → Prop) (F : S → Prop) : Prop :=
  ∀ s, P s → (∀ a, (m s).1 = .ok a → Q a (m s).2) ∧ (∀ fault, (m s).1 = .error fault → F (m s).2)

section Triples

variable {P : S → Prop} {F : S → Prop}

variable {Q : α → S → Prop}

theorem triple_pure {a : α} (held : ∀ s, P s → Q a s) :
    Triple P (pure a : Metered S E α) Q F :=
  fun s held' => ⟨fun _ same => by cases same; exact held s held', nofun⟩

theorem Triple.bind {R : α → S → Prop} {Q : β → S → Prop} (head : Triple P m R F)
    (tail : ∀ a, Triple (R a) (f a) Q F) : Triple P (m >>= f) Q F := by
  intro s held
  have first := head s held
  revert first
  rcases returned : m s with ⟨fault | a, t⟩ <;> intro first
  · rw [bind_apply, returned]
    exact ⟨nofun, fun _ _ => first.2 fault rfl⟩
  · have run : Runs m s a t := returned
    rw [run.bind_eq]
    exact tail a t (first.1 a rfl)

theorem Triple.mono {P' : S → Prop} {Q' : α → S → Prop} (h : Triple P m Q F)
    (strengthen : ∀ s, P' s → P s) (weaken : ∀ a s, Q a s → Q' a s) : Triple P' m Q' F :=
  fun s held => ⟨fun a same => weaken a _ ((h s (strengthen s held)).1 a same), (h s (strengthen s held)).2⟩

variable {x : Eval E α}

section

variable (kept : ∀ s, P s → F s)

include kept

/-- A step that touches no account, and what its value is known for. -/
theorem triple_lift_bind {Q : β → S → Prop} (tail : ∀ a, x = .ok a → Triple P (f a) Q F) :
    Triple P (lift x >>= f) Q F := by
  intro s held
  cases returned : x with
  | ok a =>
    rw [(runs_lift rfl s).bind_eq]
    exact tail a returned s held
  | error fault => exact ⟨nofun, fun _ _ => kept s held⟩

theorem triple_lift : Triple P (lift x : Metered S E α) (fun _ => P) F :=
  fun s held => ⟨fun _ _ => held, fun _ _ => kept s held⟩

/-- The same, where the value is the result. -/
theorem triple_lift_value : Triple P (lift x : Metered S E α) (fun a s => x = .ok a ∧ P s) F :=
  fun s held => ⟨fun _ same => ⟨same, held⟩, fun _ _ => kept s held⟩

theorem triple_charge {f : S → Eval E S} {Q : Unit → S → Prop} (step : ∀ s t, P s → f s = .ok t → Q () t) :
    Triple P (charge f) Q F := by
  intro s held
  unfold charge
  split
  · rename_i t paid
    exact ⟨fun _ _ => step s t held paid, nofun⟩
  · exact ⟨nofun, fun _ _ => kept s held⟩

end

theorem triple_ite [Decidable c] (yes : c → Triple P m Q F) (no : ¬ c → Triple P n Q F) :
    Triple P (if c then m else n) Q F := by
  split
  · exact yes ‹_›
  · exact no ‹_›

/-- A loop over a list, with an invariant of what was done so far.  Induction over the list. -/
theorem triple_foldlM {δ : Type} {visit : α → δ → Metered S E α} {I : List δ → α → S → Prop} :
    ∀ (ds : List δ), (∀ d ∈ ds, ∀ before acc, Triple (I before acc) (visit acc d) (fun acc' => I (before ++ [d]) acc') F) →
      ∀ (before : List δ) (acc : α),
        Triple (I before acc) (ds.foldlM visit acc) (fun acc' => I (before ++ ds) acc') F := by
  intro ds
  induction ds with
  | nil =>
    intro _ before acc
    rw [List.foldlM_nil, List.append_nil]
    exact triple_pure fun _ held => held
  | cons d ds ih =>
    intro step before acc
    rw [List.foldlM_cons]
    refine (step d List.mem_cons_self before acc).bind fun acc' => ?_
    have rest := ih (fun d mem => step d (List.mem_cons_of_mem _ mem)) (before ++ [d]) acc'
    rwa [List.append_assoc, List.singleton_append] at rest

/-- What holds afterwards whether or not the code fails. -/
theorem Triple.after (h : Triple P m (fun _ => F) F) (held : P s) : F (m s).2 := by
  have both := h s held
  rcases returned : (m s).1 with fault | a
  · exact both.2 fault returned
  · exact both.1 a returned

end Triples

/-! ### Code whose only failure is a refusal -/

/-- Run the code and hand its error to what follows, as `if err := …` does. -/
def attempt (m : Metered S E α) : Metered S E (Except E α) := fun s =>
  match m s with
  | (.ok a, t) => (.ok (.ok a), t)
  | (.error (.error e), t) => (.ok (.error e), t)
  | (.error (.trap trap), t) => (.error (.trap trap), t)

/-- From every state the code returns `a`, or fails with an error in `P`. -/
def Gives (P : E → Prop) (m : Metered S E α) (a : α) : Prop :=
  ∀ s, (m s).1 = .ok a ∨ ∃ e, (m s).1 = .error (.error e) ∧ P e

variable {P : E → Prop}

theorem gives_pure (a : α) : Gives P (pure a : Metered S E α) a := fun _ => .inl rfl

/-- What follows code that gives `a` may rely on `a`; a refusal ends both. -/
theorem Gives.followed (Q : Eval E β → Prop) (head : Gives P m a) (tail : ∀ t, Q (f a t).1)
    (refused : ∀ e, P e → Q (.error (.error e))) (s : S) : Q ((m >>= f) s).1 := by
  have first := head s
  rw [bind_apply]
  revert first
  rcases m s with ⟨fault | a', t⟩ <;> intro first
  · rcases first with returned | ⟨e, failed, held⟩
    · cases returned
    · cases failed
      exact refused e held
  · rcases first with returned | ⟨e, failed, -⟩
    · cases returned
      exact tail t
    · cases failed

theorem Gives.bind {b : β} (head : Gives P m a) (tail : Gives P (f a) b) :
    Gives P (m >>= f) b :=
  head.followed (fun x => x = .ok b ∨ ∃ e, x = .error (.error e) ∧ P e) tail
    fun e held => .inr ⟨e, rfl, held⟩

theorem gives_charge {f : S → Eval E S}
    (step : ∀ s, (f s).Ends (fun _ => True) P) : Gives P (charge f) () := by
  intro s
  have ends := step s
  unfold charge
  revert ends
  rcases f s with (e | t) | t <;> intro ends
  · exact .inr ⟨e, rfl, ends⟩
  · exact ends.elim
  · exact .inl rfl

theorem gives_ite [Decidable c] {b : α} (yes : Gives P m a) (no : Gives P n b) :
    Gives P (if c then m else n) (if c then a else b) := by
  split
  · exact yes
  · exact no

theorem attempt_gives (h : Gives P m a) (s : S) :
    (attempt m s).1 = .ok (.ok a) ∨ ∃ e, (attempt m s).1 = .ok (.error e) ∧ P e := by
  have first := h s
  unfold attempt
  revert first
  rcases m s with ⟨fault | a', t⟩ <;> intro first
  · rcases first with returned | ⟨e, failed, held⟩
    · cases returned
    · cases failed
      exact .inr ⟨e, rfl, held⟩
  · rcases first with returned | ⟨e, failed, -⟩
    · cases returned
      exact .inl rfl
    · cases failed

/-- A check that only a refusal follows. -/
theorem gives_guard {e : E} (refused : P e) :
    Gives P (guard bad e : Metered S E Unit) () := by
  intro s
  cases bad with
  | true => exact .inr ⟨e, rfl, refused⟩
  | false => exact .inl rfl

end Metered

end Microfat.Theory
