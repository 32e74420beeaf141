/-
# Microfat.Theory.Eval — fallible code with machine traps

`Eval E α` is the result of code that returns a value or an error of type `E`,
and that could also *trap*: wrap a signed 64-bit operation around, or index a
slice out of range.  A trap is a separate outcome, so "the code never wraps and
never indexes out of range" is `Safe`, and a trap-free evaluation is exactly
the evaluation the machine performs.

`Yields.bind` and `Ends.bind` are the only rules the callers need: what the head of a sequence
establishes of the value it returns is what its continuation may use.
-/
import Microfat.Theory.Bytes

namespace Microfat.Theory

set_option autoImplicit false

inductive Trap where
  | wrap
  | bounds
  deriving DecidableEq, Repr

inductive Fault (E : Type) where
  | error (e : E)
  | trap (t : Trap)

abbrev Eval (E α : Type) := Except (Fault E) α

namespace Eval

variable {E α β : Type}

/-- Return an error to the caller. -/
def fail (e : E) : Eval E α := .error (.error e)

/-- A result of code that cannot trap. -/
def ofExcept : Except E α → Eval E α
  | .ok a => .ok a
  | .error e => fail e

/-- No trap happened: a value or an ordinary error came back. -/
def Safe (x : Eval E α) : Prop := ∀ t, x ≠ .error (.trap t)

@[simp] theorem safe_ok (a : α) : Safe (.ok a : Eval E α) := by
  intro t h; cases h

@[simp] theorem safe_fail (e : E) : Safe (fail e : Eval E α) := by
  intro t h; cases h

variable {x : Eval E α} {f : α → Eval E β}

theorem bind_safe (head : Safe x) (tail : ∀ a, x = .ok a → Safe (f a)) : Safe (x >>= f) := by
  cases x with
  | ok a => exact tail a rfl
  | error fault =>
    intro t h
    cases fault with
    | error e => cases h
    | trap u => exact head u rfl

/-- Peel a sequence that returned: its head returned, and so did the rest. -/
theorem bind_ok {b : β} (h : x >>= f = .ok b) :
    ∃ a, x = .ok a ∧ f a = .ok b := by
  cases x with
  | ok a => exact ⟨a, rfl, h⟩
  | error fault => cases h

@[simp] theorem fail_ne_ok (e : E) (a : α) : (fail e : Eval E α) ≠ .ok a := by
  intro h; cases h

@[simp] theorem ok_bind (a : α) (f : α → Eval E β) : (Except.ok a >>= f : Eval E β) = f a := rfl

@[simp] theorem fail_bind (e : E) (f : α → Eval E β) : (fail e >>= f) = fail e := rfl

/-- `if bad { return err }` and the code after it. -/
def guard (bad : Bool) (e : E) : Eval E Unit :=
  if bad then fail e else .ok ()

@[simp] theorem guard_safe (bad : Bool) (e : E) : Safe (guard bad e) := by
  unfold guard; split <;> simp

variable {bad : Bool} {e : E}

@[simp] theorem guard_eq_ok {u : Unit} :
    guard bad e = .ok u ↔ bad = false := by
  unfold guard; split <;> simp_all

theorem guard_false (e : E) : guard false e = .ok () := rfl

theorem guard_pass (good : bad = false) : guard bad e = .ok () := by
  rw [good, guard_false]

/-- The code does not trap, and a value it returns satisfies `post`. -/
def Yields (x : Eval E α) (post : α → Prop) : Prop := Safe x ∧ ∀ a, x = .ok a → post a

variable {a : α}

theorem yields_ok {post : α → Prop} (h : post a) : Yields (.ok a : Eval E α) post :=
  ⟨safe_ok a, fun b same => by cases same; exact h⟩

theorem yields_guard (bad : Bool) (e : E) : Yields (guard bad e) fun _ => bad = false :=
  ⟨guard_safe bad e, fun _ passed => guard_eq_ok.mp passed⟩

/-- The rule of sequencing: what the head establishes is what the tail may use. -/
theorem Yields.bind {mid : α → Prop} {post : β → Prop} (head : Yields x mid)
    (tail : ∀ a, mid a → Yields (f a) post) : Yields (x >>= f) post := by
  refine ⟨bind_safe head.1 fun a same => (tail a (head.2 a same)).1, ?_⟩
  intro b returned
  obtain ⟨a, first, second⟩ := bind_ok returned
  exact (tail a (head.2 a first)).2 b second

theorem Yields.guarded {f : Unit → Eval E β} {post : β → Prop} (tail : bad = false → Yields (f ()) post) :
    Yields (guard bad e >>= f) post :=
  (yields_guard bad e).bind fun _ => tail

/-- The same for a guard on a proposition: past it, the proposition is false. -/
theorem Yields.refused {c : Prop} [Decidable c] {f : Unit → Eval E β} {post : β → Prop}
    (tail : ¬ c → Yields (f ()) post) : Yields (guard (decide c) e >>= f) post :=
  .guarded fun passed => tail (of_decide_eq_false passed)

theorem eq_ok_of_toOption (h : x.toOption = some a) : x = .ok a :=
  except_ok_of_toOption h

/-- `if err != nil { return fmt.Errorf("…%w", err) }`: dress an error on its way up. -/
def mapError (f : E → E) : Eval E α → Eval E α
  | .ok a => .ok a
  | .error (.error e) => fail (f e)
  | .error (.trap t) => .error (.trap t)

@[simp] theorem mapError_ok (f : E → E) (a : α) : mapError f (.ok a) = .ok a := rfl

theorem mapError_eq_ok {f : E → E} (h : mapError f x = .ok a) :
    x = .ok a := by
  rcases x with (e | t) | b
  · cases h
  · cases h
  · exact h

theorem mapError_safe {f : E → E} (safe : Safe x) : Safe (mapError f x) := by
  rcases x with (e | t) | b
  · exact safe_fail (f e)
  · exact absurd rfl (safe t)
  · exact safe_ok b

theorem Yields.mapError {f : E → E} {post : α → Prop} (h : Yields x post) :
    Yields (Eval.mapError f x) post :=
  ⟨mapError_safe h.1, fun a same => h.2 a (mapError_eq_ok same)⟩

/-- How the code ends: with a value that satisfies `post` or an error that satisfies `raised`,
and without a trap. -/
def Ends (x : Eval E α) (post : α → Prop) (raised : E → Prop) : Prop :=
  match x with
  | .ok a => post a
  | .error (.error e) => raised e
  | .error (.trap _) => False

instance (post : α → Prop) (raised : E → Prop) [DecidablePred post] [DecidablePred raised] :
    ∀ x : Eval E α, Decidable (x.Ends post raised)
  | .ok a => inferInstanceAs (Decidable (post a))
  | .error (.error e) => inferInstanceAs (Decidable (raised e))
  | .error (.trap _) => inferInstanceAs (Decidable False)

section Ends

variable {post : α → Prop} {raised : E → Prop} (h : x.Ends post raised)

include h

theorem Ends.returns (returned : x = .ok a) : post a := by
  rwa [returned] at h

theorem Ends.raises (failed : x = .error (.error e)) : raised e := by
  rwa [failed] at h

theorem Ends.safe : Safe x := by
  rintro t rfl
  exact h

theorem Ends.yields : Yields x post := ⟨h.safe, fun _ => h.returns⟩

theorem Ends.self : x.Ends (fun a => x = .ok a) raised := by
  rcases x with (e | t) | a
  · exact h
  · exact h
  · exact rfl

theorem Ends.mono {post' : α → Prop} {raised' : E → Prop} (value : ∀ a, post a → post' a)
    (error : ∀ e, raised e → raised' e) : x.Ends post' raised' := by
  rcases x with (e | t) | a
  · exact error e h
  · exact h
  · exact value a h

theorem Ends.ok_of (never : ∀ e, ¬ raised e) : ∃ a, x = .ok a ∧ post a := by
  rcases x with (e | t) | a
  · exact absurd h (never e)
  · exact h.elim
  · exact ⟨a, rfl, h⟩

theorem Ends.fail_of (never : ∀ a, ¬ post a) : ∃ e, x = fail e := by
  rcases x with (e | t) | a
  · exact ⟨e, rfl⟩
  · exact h.elim
  · exact absurd h (never a)

/-- The rule of sequencing: what the head establishes is what the tail may use. -/
theorem Ends.bind {post' : β → Prop} (tail : ∀ a, post a → (f a).Ends post' raised) : (x >>= f).Ends post' raised := by
  rcases x with (e | t) | a
  · exact h
  · exact h
  · exact tail a h

end Ends

theorem ends_guard (bad : Bool) (e : E) : (guard bad e).Ends (fun _ => bad = false) fun e' => e' = e ∧ bad = true := by
  cases bad with
  | true => exact ⟨rfl, rfl⟩
  | false => exact rfl

theorem Ends.guarded {f : Unit → Eval E β} {post : β → Prop} {raised : E → Prop} (refused : bad = true → raised e)
    (tail : bad = false → (f ()).Ends post raised) : (guard bad e >>= f).Ends post raised := by
  cases bad with
  | true => exact refused rfl
  | false => exact tail rfl

theorem Ends.mapError {f : E → E} {post : α → Prop} {raised : E → Prop} (h : x.Ends post fun e => raised (f e)) :
    (Eval.mapError f x).Ends post raised := by
  rcases x with (e | t) | a <;> exact h

end Eval

/-! ## Signed 64-bit arithmetic -/

/-- The values an `int64` can hold. -/
def InInt64 (v : Int) : Prop := -2 ^ 63 ≤ v ∧ v < 2 ^ 63

instance (v : Int) : Decidable (InInt64 v) := inferInstanceAs (Decidable (_ ∧ _))

section Arithmetic

variable {E : Type}

/-- The result of a signed operation whose exact value is `v`. -/
def exact64 (v : Int) : Eval E Int64 :=
  if InInt64 v then .ok (Int64.ofInt v) else .error (.trap .wrap)

def add64 (a b : Int64) : Eval E Int64 := exact64 (a.toInt + b.toInt)

def sub64 (a b : Int64) : Eval E Int64 := exact64 (a.toInt - b.toInt)

variable {v : Int}

theorem toInt_ofInt64 (fits : InInt64 v) : (Int64.ofInt v).toInt = v :=
  Int64.toInt_ofInt_of_le fits.1 fits.2

theorem exact64_of_fits (fits : InInt64 v) :
    (exact64 v : Eval E Int64) = .ok (Int64.ofInt v) := if_pos fits

/-- The distance from a place to a later one fits. -/
theorem sub64_ordered {a b : Int64} (nonneg : 0 ≤ b.toInt) (ordered : b.toInt ≤ a.toInt) :
    ∃ c, (sub64 a b : Eval E Int64) = .ok c ∧ c.toInt = a.toInt - b.toInt := by
  have fits : InInt64 (a.toInt - b.toInt) := by
    have := a.toInt_lt
    exact ⟨by omega, by omega⟩
  exact ⟨_, exact64_of_fits fits, toInt_ofInt64 fits⟩

/-- A range that ends before a representable place has a representable end. -/
theorem add64_inside {a b z : Int64} (first : 0 ≤ a.toInt) (size : 0 ≤ b.toInt)
    (inside : a.toInt + b.toInt ≤ z.toInt) :
    ∃ c, (add64 a b : Eval E Int64) = .ok c ∧ c.toInt = a.toInt + b.toInt := by
  have fits : InInt64 (a.toInt + b.toInt) := by
    have := z.toInt_lt
    exact ⟨by omega, by omega⟩
  exact ⟨_, exact64_of_fits fits, toInt_ofInt64 fits⟩

/-- A Go `int` sum of two non-negative values. -/
def addInt (a b : Nat) : Eval E Nat :=
  if a + b < 2 ^ 63 then .ok (a + b) else .error (.trap .wrap)

variable {b : Nat}

theorem addInt_of_fits {a : Nat} (fits : a + b < 2 ^ 63) :
    (addInt a b : Eval E Nat) = .ok (a + b) := if_pos fits

theorem addInt_eq_ok {a c : Nat} (h : (addInt a b : Eval E Nat) = .ok c) : c = a + b := by
  unfold addInt at h
  split at h
  · cases h; rfl
  · cases h

/-! ## Slices -/

variable {data : Bytes} {lo hi : Nat}

/-- `data[i]`. -/
def byteAt (data : Bytes) (i : Nat) : Eval E UInt8 :=
  match data[i]? with
  | some b => .ok b
  | none => .error (.trap .bounds)

/-- `data[lo:hi]`. -/
def slice (data : Bytes) (lo hi : Nat) : Eval E Bytes :=
  if lo ≤ hi ∧ hi ≤ data.length then .ok ((data.drop lo).take (hi - lo))
  else .error (.trap .bounds)

theorem slice_of_le (ordered : lo ≤ hi) (inside : hi ≤ data.length) :
    (slice data lo hi : Eval E Bytes) = .ok ((data.drop lo).take (hi - lo)) :=
  if_pos ⟨ordered, inside⟩

theorem byteAt_of_lt {i : Nat} (inside : i < data.length) :
    (byteAt data i : Eval E UInt8) = .ok data[i] := by
  simp [byteAt, List.getElem?_eq_getElem inside]

theorem slice_eq_ok {piece : Bytes} (h : (slice data lo hi : Eval E Bytes) = .ok piece) :
    piece = (data.drop lo).take (hi - lo) ∧ lo ≤ hi ∧ hi ≤ data.length := by
  unfold slice at h
  split at h
  · rename_i ok
    cases h
    exact ⟨rfl, ok⟩
  · cases h

/-! Machine arithmetic and slicing trap; they never return an error. -/

variable {raised : E → Prop}

theorem ends_addInt {a : Nat} (fits : a + b < 2 ^ 63) : (addInt a b : Eval E Nat).Ends (· = a + b) raised := by
  rw [addInt_of_fits fits]
  exact rfl

theorem ends_byteAt {i : Nat} (inside : i < data.length) :
    (byteAt data i : Eval E UInt8).Ends (fun _ => True) raised := by
  rw [byteAt_of_lt inside]
  exact trivial

theorem ends_slice (ordered : lo ≤ hi) (inside : hi ≤ data.length) :
    (slice data lo hi : Eval E Bytes).Ends
      (fun piece => piece = (data.drop lo).take (hi - lo) ∧ piece.length = hi - lo) raised := by
  rw [slice_of_le ordered inside]
  refine ⟨rfl, ?_⟩
  rw [List.length_take, List.length_drop]
  omega

end Arithmetic

end Microfat.Theory
