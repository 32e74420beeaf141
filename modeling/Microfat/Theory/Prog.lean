/-
# Microfat.Theory.Prog — interacting programs, interleaved and interrupted

A program that talks to a system is a tree (`Prog`): it returns, or it issues a
command and continues with the answer.  The system is a function `step` that
takes the world, a command and a *choice* — how the environment lets the command
end — to the next world and the answer.  A program is therefore run one command
at a time, and what happens between two commands is visible.

`Ensures rely guar p Q w` is what a program does whatever the others do: every
step it takes is a `guar` step, and a result `a` comes with `Q a`, while the
others move the world by `rely` before each of its steps.

* `ensures_bind`, `ensures_call`, `ensures_ret`: the rules a proof about a program
  uses; an assertion that is stable under `rely` is carried from command to
  command.
* `pool_ensures`: when the guarantee of each thread is within the rely of every
  other, each thread of a pool keeps what it ensures in every interleaving.  A
  thread that is never scheduled again is one that crashed after its last step,
  so every statement about reachable pools covers crashes.
* `Leads`: what a program does when nobody else touches the world, whatever the
  outcomes of its commands; `Leads.outcome` reads it off one run (`runWith`).
* `Run`: a computation in phases, some of which are programs run alone and some
  pools; `Leads.runs` brings what is known of a program to a phase.
-/
import Mathlib

namespace Microfat.Theory

set_option autoImplicit false

inductive Prog (C : Type) (R : C → Type) (α : Type) where
  | ret (a : α)
  | cmd (c : C) (k : R c → Prog C R α)

namespace Prog

variable {C : Type} {R : C → Type} {α β γ : Type}

def bind : Prog C R α → (α → Prog C R β) → Prog C R β
  | .ret a, f => f a
  | .cmd c k, f => .cmd c fun r => (k r).bind f

instance : Monad (Prog C R) where
  pure := .ret
  bind := bind

/-- Issue one command and return its answer. -/
def call (c : C) : Prog C R (R c) := .cmd c .ret

@[simp] theorem pure_eq (a : α) : (pure a : Prog C R α) = .ret a := rfl

@[simp] theorem ret_bind (a : α) (f : α → Prog C R β) : (Prog.ret a >>= f) = f a := rfl

@[simp] theorem cmd_bind (c : C) (k : R c → Prog C R α) (f : α → Prog C R β) :
    (Prog.cmd c k >>= f) = .cmd c fun r => k r >>= f := rfl

@[simp] theorem call_bind (c : C) (f : R c → Prog C R β) : (call c >>= f) = .cmd c f := rfl

/-- The result of a program that has nothing left to do. -/
def returned : Prog C R α → Option α
  | .ret a => some a
  | .cmd _ _ => none

theorem eq_ret_of_returned {p : Prog C R α} {a : α} (done : p.returned = some a) : p = .ret a := by
  cases p with
  | ret b => exact congrArg _ (Option.some.inj done)
  | cmd c k => cases done

/-- Run alone to the end, with every command ending as `x` says. -/
def runAlone {W X : Type} (step : W → (c : C) → X → W × R c) (x : X) : Prog C R α → W → α × W
  | .ret a, w => (a, w)
  | .cmd c k, w => runAlone step x (k (step w c x).2) (step w c x).1

/-- Run alone with the given outcomes, one for each command; a run that has used
them all up stopped there. -/
def runWith {W X : Type} (step : W → (c : C) → X → W × R c) :
    Prog C R α → W → List X → Option (α × W)
  | .ret a, w, _ => some (a, w)
  | .cmd _ _, _, [] => none
  | .cmd c k, w, x :: xs => runWith step (k (step w c x).2) (step w c x).1 xs

end Prog

/-! ## Programs run alone -/

section Leads

variable {C : Type} {R : C → Type} {α β W X : Type}

/-- Whatever the outcomes of its commands, the program returns with `Q`. -/
def Leads (step : W → (c : C) → X → W × R c) : Prog C R α → (α → W → Prop) → W → Prop
  | .ret a, Q, w => Q a w
  | .cmd c k, Q, w => ∀ x, Leads step (k (step w c x).2) Q (step w c x).1

variable {step : W → (c : C) → X → W × R c}

variable {Q : α → W → Prop} {w : W}

@[simp] theorem leads_ret {a : α} :
    Leads step (.ret a) Q w ↔ Q a w := Iff.rfl

theorem leads_cmd {c : C} {k : R c → Prog C R α} :
    Leads step (.cmd c k) Q w ↔ ∀ x, Leads step (k (step w c x).2) Q (step w c x).1 := Iff.rfl

theorem leads_call {c : C} {f : R c → Prog C R α}
    (next : ∀ x, Leads step (f (step w c x).2) Q (step w c x).1) :
    Leads step (Prog.call c >>= f) Q w := next

/-- A command that leaves the world as it is: what is known of its answer. -/
theorem leads_look {c : C} {f : R c → Prog C R α} (same : ∀ x, (step w c x).1 = w)
    (next : ∀ x r, (step w c x).2 = r → Leads step (f r) Q w) :
    Leads step (Prog.call c >>= f) Q w := by
  intro x
  rw [same x]
  exact next x _ rfl

variable {p : Prog C R α}

theorem leads_mono {P : α → W → Prop} (h : Leads step p P w) (weaken : ∀ a w, P a w → Q a w) :
    Leads step p Q w := by
  induction p generalizing w with
  | ret a => exact weaken a w h
  | cmd c k ih => exact fun x => ih _ (h x)

/-- A system with fewer outcomes. -/
theorem Leads.narrow {Y : Type} {step' : W → (c : C) → Y → W × R c} (h : Leads step p Q w)
    (within : ∀ w c y, ∃ x, step' w c y = step w c x) : Leads step' p Q w := by
  induction p generalizing w with
  | ret a => exact h
  | cmd c k ih =>
    intro y
    obtain ⟨x, same⟩ := within w c y
    rw [same]
    exact ih _ (h x)

theorem leads_bind {f : α → Prog C R β} {Q : β → W → Prop} :
    Leads step (p >>= f) Q w ↔ Leads step p (fun a w => Leads step (f a) Q w) w := by
  induction p generalizing w with
  | ret a => exact Iff.rfl
  | cmd c k ih => exact forall_congr' fun x => ih _

/-- The first program, by what it is known to do, then the rest. -/
theorem leads_seq {f : α → Prog C R β} {P : α → W → Prop} {Q : β → W → Prop} (first : Leads step p P w)
    (rest : ∀ a w, P a w → Leads step (f a) Q w) :
    Leads step (p >>= f) Q w :=
  leads_bind.mpr (leads_mono first rest)

theorem Leads.outcome {w' : W} {xs : List X} {a : α} (h : Leads step p Q w)
    (ran : p.runWith step w xs = some (a, w')) : Q a w' := by
  induction p generalizing w xs with
  | ret b =>
    cases ran
    exact h
  | cmd c k ih =>
    cases xs with
    | nil => cases ran
    | cons x xs => exact ih _ (h x) ran

/-- The run in which every command ends the same way. -/
theorem Leads.alone {x : X} (h : Leads (fun w c (_ : Unit) => step w c x) p Q w) :
    Q (p.runAlone step x w).1 (p.runAlone step x w).2 := by
  induction p generalizing w with
  | ret a => exact h
  | cmd c k ih => exact ih _ (h ())

/-- Every command the program can issue is of a kind, and so is every result it can return,
whatever it is answered. -/
def Prog.Obeys (P : C → Prop) (S : α → Prop) : Prog C R α → Prop
  | .ret a => S a
  | .cmd c k => P c ∧ ∀ r, (k r).Obeys P S

abbrev Prog.Uses (P : C → Prop) (p : Prog C R α) : Prop := p.Obeys P fun _ => True

abbrev Prog.Returns (S : α → Prop) (p : Prog C R α) : Prop := p.Obeys (fun _ => True) S

variable {P : C → Prop} {S : α → Prop}

theorem Prog.obeys_call {c : C} {f : R c → Prog C R α} (kind : P c) (next : ∀ r, (f r).Obeys P S) :
    (Prog.call c >>= f).Obeys P S := ⟨kind, next⟩

theorem Prog.obeys_bind {f : α → Prog C R β} {T : β → Prop} (first : p.Obeys P S)
    (rest : ∀ a, S a → (f a).Obeys P T) : (p >>= f).Obeys P T := by
  induction p with
  | ret a => exact rest a first
  | cmd c k ih => exact ⟨first.1, fun r => ih r (first.2 r)⟩

theorem Prog.uses_bind {f : α → Prog C R β} (first : p.Uses P) (rest : ∀ a, (f a).Uses P) : (p >>= f).Uses P :=
  Prog.obeys_bind first fun a _ => rest a

theorem Prog.Obeys.mono {P' : C → Prop} (obeys : p.Obeys P S) (le : ∀ c, P c → P' c) : p.Obeys P' S := by
  induction p with
  | ret a => exact obeys
  | cmd c k ih => exact ⟨le c obeys.1, fun r => ih r (obeys.2 r)⟩

theorem leads_any (p : Prog C R α) (w : W) : Leads step p (fun _ _ => True) w := by
  induction p generalizing w with
  | ret a => trivial
  | cmd c k ih => exact fun x => ih _ _

/-- A program about which nothing is known but whether it failed. -/
theorem leads_unless {E : Type} {p : Prog C R (Option E)} {f : Option E → Prog C R α}
    (stop : ∀ e w, Leads step (f (some e)) Q w) (next : ∀ w, Leads step (f none) Q w) :
    Leads step (p >>= f) Q w := by
  refine leads_seq (leads_any p w) ?_
  rintro (_ | e) w' -
  · exact next w'
  · exact stop e w'

theorem leads_returns (obeys : p.Obeys P S) (h : Leads step p Q w) : Leads step p (fun a w => S a ∧ Q a w) w := by
  induction p generalizing w with
  | ret a => exact ⟨obeys, h⟩
  | cmd c k ih => exact fun x => ih _ (obeys.2 _) (h x)

theorem leads_and {P : α → W → Prop} (one : Leads step p P w) (other : Leads step p Q w) :
    Leads step p (fun a w => P a w ∧ Q a w) w := by
  induction p generalizing w with
  | ret a => exact ⟨one, other⟩
  | cmd c k ih => exact fun x => ih _ (one x) (other x)

/-- What each command of the kind keeps, the program keeps. -/
theorem leads_uses {T : W → W → Prop} (refl : ∀ w, T w w) (trans : ∀ u v w, T u v → T v w → T u w)
    (keeps : ∀ w c x, P c → T w (step w c x).1) (uses : p.Obeys P S) (w : W) :
    Leads step p (fun _ w' => T w w') w := by
  induction p generalizing w with
  | ret a => exact refl w
  | cmd c k ih =>
    intro x
    exact leads_mono (ih _ (uses.2 _) _) fun _ w' further => trans _ _ _ (keeps w c x uses.1) further

end Leads

section Ensures

variable {C : Type} {R : C → Type} {α β W X : Type}

/-- The program keeps to `guar` and returns with `Q`, while the others move the
world by `rely`. -/
def Ensures (step : W → (c : C) → X → W × R c) (rely guar : W → W → Prop) :
    Prog C R α → (α → W → Prop) → W → Prop
  | .ret a, Q, w => ∀ w', rely w w' → Q a w'
  | .cmd c k, Q, w => ∀ w', rely w w' → ∀ x, guar w' (step w' c x).1 ∧
      Ensures step rely guar (k (step w' c x).2) Q (step w' c x).1

/-- The assertion survives what the others do. -/
def Stable (rely : W → W → Prop) (P : W → Prop) : Prop := ∀ w w', P w → rely w w' → P w'

variable {step : W → (c : C) → X → W × R c} {rely guar : W → W → Prop}

variable {p : Prog C R α} {Q : α → W → Prop} {w : W}

theorem ensures_mono {P : α → W → Prop} (weaken : ∀ a w, P a w → Q a w)
    (h : Ensures step rely guar p P w) :
    Ensures step rely guar p Q w := by
  induction p generalizing w with
  | ret a => exact fun w' moved => weaken a w' (h w' moved)
  | cmd c k ih =>
    intro w' moved x
    obtain ⟨kept, rest⟩ := h w' moved x
    exact ⟨kept, ih _ rest⟩

theorem ensures_rely {w' : W} (trans : ∀ a b c, rely a b → rely b c → rely a c)
    (h : Ensures step rely guar p Q w) (moved : rely w w') : Ensures step rely guar p Q w' := by
  cases p with
  | ret a => exact fun w'' further => h w'' (trans _ _ _ moved further)
  | cmd c k => exact fun w'' further x => h w'' (trans _ _ _ moved further) x

theorem ensures_bind {f : α → Prog C R β} {Q : β → W → Prop} (refl : ∀ a, rely a a)
    (h : Ensures step rely guar p (fun a w => Ensures step rely guar (f a) Q w) w) :
    Ensures step rely guar (p >>= f) Q w := by
  induction p generalizing w with
  | ret a => exact h w (refl w)
  | cmd c k ih =>
    intro w' moved x
    obtain ⟨kept, rest⟩ := h w' moved x
    exact ⟨kept, ih _ rest⟩

variable {P : W → Prop}

section

variable (stable : Stable rely P)

include stable

theorem ensures_ret {a : α} (holds : P w) (done : ∀ w, P w → Q a w) :
    Ensures step rely guar (.ret a) Q w :=
  fun w' moved => done w' (stable w w' holds moved)

/-- One call: what holds before it is stable, and each of its outcomes continues. -/
theorem ensures_call {c : C} {f : R c → Prog C R α} (holds : P w) (next : ∀ w x, P w → guar w (step w c x).1 ∧
      Ensures step rely guar (f (step w c x).2) Q (step w c x).1) :
    Ensures step rely guar (Prog.call c >>= f) Q w :=
  fun w' moved x => next w' x (stable w w' holds moved)

/-- A program whose commands all keep a stable assertion keeps it. -/
theorem ensures_uses {K : C → Prop} (keeps : ∀ w c x, K c → P w → guar w (step w c x).1 ∧ P (step w c x).1)
    {S : α → Prop} (uses : p.Obeys K S) (holds : P w) : Ensures step rely guar p (fun _ w => P w) w := by
  induction p generalizing w with
  | ret a => exact fun w' moved => stable w w' holds moved
  | cmd c k ih =>
    intro w' moved x
    obtain ⟨kept, after⟩ := keeps w' c x uses.1 (stable w w' holds moved)
    exact ⟨kept, ih _ (uses.2 _) after⟩

/-- A program that only reads, and only what nobody changes, returns what it
returns alone. -/
theorem ensures_reads {V : Type} {view : W → V} {K : C → Prop} {S : α → Prop}
    (unmoved : ∀ w w', rely w w' → view w' = view w) (refl : ∀ w, guar w w)
    (looks : ∀ w c x, K c → (step w c x).1 = w)
    (same : ∀ w w' c x, K c → view w = view w' → (step w c x).2 = (step w' c x).2) (uses : p.Uses K) {w₀ : W}
    (h : Leads step p (fun a _ => S a) w₀) (seen : view w = view w₀) (holds : P w) :
    Ensures step rely guar p (fun a w => S a ∧ P w) w := by
  induction p generalizing w with
  | ret a => exact fun w' moved => ⟨h, stable w w' holds moved⟩
  | cmd c k ih =>
    intro w' moved x
    have view_eq := (unmoved w w' moved).trans seen
    rw [looks w' c x uses.1, same w' w₀ c x uses.1 view_eq]
    have rest := h x
    rw [looks w₀ c x uses.1] at rest
    exact ⟨refl w', ih _ (uses.2 _) rest view_eq (stable w w' holds moved)⟩

end

theorem ensures_returns {K : C → Prop} {S : α → Prop} (obeys : p.Obeys K S) (h : Ensures step rely guar p Q w) :
    Ensures step rely guar p (fun a w => S a ∧ Q a w) w := by
  induction p generalizing w with
  | ret a => exact fun w' moved => ⟨obeys, h w' moved⟩
  | cmd c k ih =>
    intro w' moved x
    obtain ⟨kept, rest⟩ := h w' moved x
    exact ⟨kept, ih _ (obeys.2 _) rest⟩

/-- The first program, by what it is known to do, then the rest. -/
theorem ensures_seq {f : α → Prog C R β} {P : α → W → Prop} {Q : β → W → Prop} (refl : ∀ a, rely a a)
    (first : Ensures step rely guar p P w) (rest : ∀ a w, P a w → Ensures step rely guar (f a) Q w) :
    Ensures step rely guar (p >>= f) Q w :=
  ensures_bind refl (ensures_mono rest first)

end Ensures

/-! ## Pools of threads -/

section Pool

variable {ι C : Type} {R : C → Type} {α W X : Type} [DecidableEq ι]

/-- The programs still to be run, and the world. -/
structure Pool (ι C : Type) (R : C → Type) (α W : Type) where
  threads : ι → Prog C R α
  world : W

/-- One thread issues its next command, or the environment moves the world. -/
inductive PoolStep (step : ι → W → (c : C) → X → W × R c) (env : W → W → Prop) :
    Pool ι C R α W → Pool ι C R α W → Prop
  | thread {s : Pool ι C R α W} (i : ι) {c : C} {k : R c → Prog C R α} (x : X) :
      s.threads i = .cmd c k →
      PoolStep step env s
        ⟨Function.update s.threads i (k (step i s.world c x).2), (step i s.world c x).1⟩
  | env {s : Pool ι C R α W} {w : W} : env s.world w → PoolStep step env s ⟨s.threads, w⟩

/-- Every interleaving of the threads' commands, stopped anywhere. -/
abbrev PoolRun (step : ι → W → (c : C) → X → W × R c) (env : W → W → Prop) :
    Pool ι C R α W → Pool ι C R α W → Prop :=
  Relation.ReflTransGen (PoolStep step env)

variable {step : ι → W → (c : C) → X → W × R c} {env : W → W → Prop}

variable {s : Pool ι C R α W}

/-- What no step breaks holds of every reachable world. -/
theorem pool_invariant {t : Pool ι C R α W} {I : Pool ι C R α W → Prop}
    (keeps : ∀ s t, I s → PoolStep step env s t → I t) (start : I s) (reach : PoolRun step env s t) :
    I t := by
  induction reach with
  | refl => exact start
  | tail _ last ih => exact keeps _ _ ih last

variable {rely guar : ι → W → W → Prop} {Q : ι → α → W → Prop} {I : W → Prop}

/-- The threads tolerate each other and the environment, and keep the invariant. -/
structure Compatible (env : W → W → Prop) (rely guar : ι → W → W → Prop) (I : W → Prop) : Prop where
  refl : ∀ i w, rely i w w
  trans : ∀ i u v w, rely i u v → rely i v w → rely i u w
  threads : ∀ i j w w', i ≠ j → guar i w w' → rely j w w'
  environment : ∀ i w w', env w w' → rely i w w'
  guards : ∀ i w w', guar i w w' → I w → I w'
  allows : ∀ w w', env w w' → I w → I w'

/-- The invariant holds and every thread ensures what it has to. -/
def PoolEnsures (step : ι → W → (c : C) → X → W × R c) (rely guar : ι → W → W → Prop)
    (Q : ι → α → W → Prop) (I : W → Prop) (s : Pool ι C R α W) : Prop :=
  I s.world ∧ ∀ i, Ensures (step i) (rely i) (guar i) (s.threads i) (Q i) s.world

/-- **The rely/guarantee rule.** -/
theorem pool_ensures (compatible : Compatible env rely guar I) {t : Pool ι C R α W}
    (start : PoolEnsures step rely guar Q I s) (reach : PoolRun step env s t) :
    PoolEnsures step rely guar Q I t := by
  refine pool_invariant ?_ start reach
  intro s t ⟨inv, all⟩ moved
  cases moved with
  | env change =>
    refine ⟨compatible.allows _ _ change inv, fun j => ?_⟩
    exact ensures_rely (compatible.trans j) (all j) (compatible.environment j _ _ change)
  | @thread i c k x next =>
    have mine := all i
    rw [next] at mine
    obtain ⟨kept, rest⟩ := mine _ (compatible.refl i _) x
    refine ⟨compatible.guards i _ _ kept inv, fun j => ?_⟩
    by_cases same : j = i
    · subst same
      simpa using rest
    · dsimp only
      rw [Function.update_of_ne same]
      exact ensures_rely (compatible.trans j) (all j)
        (compatible.threads i j _ _ (Ne.symm same) kept)

omit [DecidableEq ι] in
/-- A thread that returned did so with its postcondition. -/
theorem PoolEnsures.returned (compatible : Compatible env rely guar I)
    (all : PoolEnsures step rely guar Q I s) {i : ι} {a : α} (done : s.threads i = .ret a) :
    Q i a s.world := by
  have mine := all.2 i
  rw [done] at mine
  exact mine s.world (compatible.refl i _)

/-- Run a schedule: which thread moves next, and how its command ends. -/
def runPool (step : ι → W → (c : C) → X → W × R c) (s : Pool ι C R α W) :
    List (ι × X) → Pool ι C R α W
  | [] => s
  | (i, x) :: rest =>
    match s.threads i with
    | .ret _ => runPool step s rest
    | .cmd c k =>
      runPool step
        ⟨Function.update s.threads i (k (step i s.world c x).2), (step i s.world c x).1⟩ rest

theorem runPool_run (s : Pool ι C R α W) (schedule : List (ι × X)) :
    PoolRun step env s (runPool step s schedule) := by
  induction schedule generalizing s with
  | nil => exact .refl
  | cons move rest ih =>
    obtain ⟨i, x⟩ := move
    rw [runPool]
    split
    · exact ih s
    · rename_i c k next
      exact .head (.thread i x next) (ih _)

end Pool

/-! ## Phases -/

section Run

variable {C : Type} {R : C → Type} {α β W X : Type}

/-- What a computation can do: from which world, with which result, to which
world. -/
def Run (W α : Type) := W → α → W → Prop

instance : Monad (Run W) where
  pure a := fun w b w' => b = a ∧ w' = w
  bind r f := fun w b w'' => ∃ a w', r w a w' ∧ f a w' b w''

theorem Run.pure_iff {a b : α} {w w' : W} : (pure a : Run W α) w b w' ↔ b = a ∧ w' = w := Iff.rfl

/-- A program run alone to its end, with any outcomes. -/
def Prog.runs (step : W → (c : C) → X → W × R c) (p : Prog C R α) : Run W α :=
  fun w a w' => ∃ outcomes, p.runWith step w outcomes = some (a, w')

theorem Leads.runs {step : W → (c : C) → X → W × R c} {p : Prog C R α} {Q : α → W → Prop} {w w' : W} {a : α}
    (h : Leads step p Q w) (ran : p.runs step w a w') : Q a w' := by
  obtain ⟨outcomes, ended⟩ := ran
  exact h.outcome ended

theorem Prog.runs_alone (step : W → (c : C) → X → W × R c) (x : X) (p : Prog C R α) (w : W) :
    p.runs step w (p.runAlone step x w).1 (p.runAlone step x w).2 := by
  induction p generalizing w with
  | ret a => exact ⟨[], rfl⟩
  | cmd c k ih =>
    obtain ⟨outcomes, ended⟩ := ih (step w c x).2 (step w c x).1
    exact ⟨x :: outcomes, ended⟩

end Run

end Microfat.Theory
