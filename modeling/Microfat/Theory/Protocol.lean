/-
# Microfat.Theory.Protocol — interleavings with a journal, and threads that keep to a protocol

`Trace` is an interleaving of a pool together with its journal: who issued which
command, and what came back.  It says no more than `PoolRun` does (`Trace.run`,
`PoolRun.trace`), but what was asked for and what was answered can be talked about.

A `Protocol` is an automaton over the commands of one thread: which commands are
allowed where the thread stands, and where an answer takes it.  Whether a program keeps
to it is a matter of the program alone (`Keeps`), with rules for sequences and calls.

* `Trace.keeps`: an assertion about the stands of all threads, the world and the journal
  that every allowed command preserves holds along every interleaving.
-/
import Microfat.Theory.Prog

namespace Microfat.Theory

set_option autoImplicit false

/-! ## Journals -/

/-- A command, who issued it, and what came back. -/
structure Exchange (ι C : Type) (R : C → Type) where
  thread : ι
  call : C
  reply : R call

section Journal

variable {ι C : Type} {R : C → Type} {α W X : Type} [DecidableEq ι]

/-- An interleaving of the threads' commands, stopped anywhere, and its journal. -/
inductive Trace (step : ι → W → (c : C) → X → W × R c) (s : Pool ι C R α W) :
    List (Exchange ι C R) → Pool ι C R α W → Prop
  | start : Trace step s [] s
  | thread {journal : List (Exchange ι C R)} {t : Pool ι C R α W} (before : Trace step s journal t) (i : ι)
      {c : C} {k : R c → Prog C R α} (x : X) (next : t.threads i = .cmd c k) :
      Trace step s (journal ++ [⟨i, c, (step i t.world c x).2⟩])
        ⟨Function.update t.threads i (k (step i t.world c x).2), (step i t.world c x).1⟩

variable {step : ι → W → (c : C) → X → W × R c} {s t : Pool ι C R α W}

theorem Trace.run {env : W → W → Prop} {journal : List (Exchange ι C R)} (trace : Trace step s journal t) :
    PoolRun step env s t := by
  induction trace with
  | start => exact .refl
  | thread _ i x next ih => exact ih.tail (.thread i x next)

theorem PoolRun.trace (run : PoolRun step (fun _ _ => False) s t) : ∃ journal, Trace step s journal t := by
  induction run with
  | refl => exact ⟨[], .start⟩
  | tail _ last ih =>
    obtain ⟨journal, before⟩ := ih
    cases last with
    | thread i x next => exact ⟨_, before.thread i x next⟩
    | env moved => exact moved.elim

/-- The journal of a schedule, behind what was there before. -/
def runJournal (step : ι → W → (c : C) → X → W × R c) (s : Pool ι C R α W) :
    List (Exchange ι C R) → List (ι × X) → List (Exchange ι C R)
  | journal, [] => journal
  | journal, (i, x) :: rest =>
    match s.threads i with
    | .ret _ => runJournal step s journal rest
    | .cmd c k =>
      runJournal step
        ⟨Function.update s.threads i (k (step i s.world c x).2), (step i s.world c x).1⟩
        (journal ++ [⟨i, c, (step i s.world c x).2⟩]) rest

theorem Trace.schedule {journal : List (Exchange ι C R)} (trace : Trace step s journal t)
    (schedule : List (ι × X)) : Trace step s (runJournal step t journal schedule) (runPool step t schedule) := by
  induction schedule generalizing t journal with
  | nil => exact trace
  | cons move rest ih =>
    obtain ⟨i, x⟩ := move
    rw [runJournal, runPool]
    cases next : t.threads i with
    | ret a => exact ih trace
    | cmd c k => exact ih (trace.thread i x next)

end Journal

/-! ## Protocols -/

/-- Which commands are allowed at a stand, and where an answer leads. -/
structure Protocol (C : Type) (R : C → Type) (L : Type) where
  may : L → C → Prop
  next : L → (c : C) → R c → L

namespace Protocol

variable {C : Type} {R : C → Type} {L α β : Type} (P : Protocol C R L)

/-- Whatever it is answered, the program issues only allowed commands, and returns with `Q`. -/
def Keeps : Prog C R α → (α → L → Prop) → L → Prop
  | .ret a, Q, l => Q a l
  | .cmd c k, Q, l => P.may l c ∧ ∀ r, Keeps (k r) Q (P.next l c r)

variable {P}

theorem keeps_call {c : C} {f : R c → Prog C R α} {Q : α → L → Prop} {l : L} (may : P.may l c)
    (rest : ∀ r, P.Keeps (f r) Q (P.next l c r)) : P.Keeps (Prog.call c >>= f) Q l := ⟨may, rest⟩

theorem keeps_mono {p : Prog C R α} {Q S : α → L → Prop} {l : L} (h : P.Keeps p Q l)
    (weaken : ∀ a l, Q a l → S a l) : P.Keeps p S l := by
  induction p generalizing l with
  | ret a => exact weaken a l h
  | cmd c k ih => exact ⟨h.1, fun r => ih r (h.2 r)⟩

/-- The first program, by what it is known to do, then the rest. -/
theorem keeps_seq {p : Prog C R α} {f : α → Prog C R β} {Q : α → L → Prop} {S : β → L → Prop} {l : L}
    (first : P.Keeps p Q l) (rest : ∀ a l, Q a l → P.Keeps (f a) S l) : P.Keeps (p >>= f) S l := by
  induction p generalizing l with
  | ret a => exact rest a l first
  | cmd c k ih => exact ⟨first.1, fun r => ih r (first.2 r)⟩

/-- The commands of a run that `reply` answers, each with the stand it was issued at. -/
def issued (P : Protocol C R L) (reply : (c : C) → R c) : Prog C R α → L → List (L × C)
  | .ret _, _ => []
  | .cmd c k, l => (l, c) :: issued P reply (k (reply c)) (P.next l c (reply c))

theorem Keeps.may {p : Prog C R α} {Q : α → L → Prop} {l : L} (h : P.Keeps p Q l) (reply : (c : C) → R c) :
    ∀ c ∈ P.issued reply p l, P.may c.1 c.2 := by
  induction p generalizing l with
  | ret a => exact nofun
  | cmd c k ih => exact List.forall_mem_cons.mpr ⟨h.1, ih _ (h.2 _)⟩

/-- Commands that are allowed everywhere and leave the stand alone. -/
theorem keeps_uses {K : C → Prop} (free : ∀ l c, K c → P.may l c ∧ ∀ r, P.next l c r = l)
    {p : Prog C R α} (uses : p.Uses K) (l : L) : P.Keeps p (fun _ l' => l' = l) l := by
  induction p with
  | ret a => exact rfl
  | cmd c k ih =>
    refine ⟨(free l c uses.1).1, fun r => ?_⟩
    rw [(free l c uses.1).2 r]
    exact ih r (uses.2 r)

end Protocol

section Threads

variable {ι C : Type} {R : C → Type} {L α W X : Type} [DecidableEq ι] {P : Protocol C R L}
variable {step : ι → W → (c : C) → X → W × R c} {s t : Pool ι C R α W}

/-- **What every allowed command preserves holds along every interleaving.** -/
theorem Trace.keeps {I : (ι → L) → W → List (Exchange ι C R) → Prop} {Q : α → L → Prop}
    (step_keeps : ∀ stands w journal i c x, I stands w journal → P.may (stands i) c →
      I (Function.update stands i (P.next (stands i) c (step i w c x).2)) (step i w c x).1
        (journal ++ [⟨i, c, (step i w c x).2⟩]))
    {stands : ι → L} (start : I stands s.world []) (threads : ∀ i, P.Keeps (s.threads i) Q (stands i))
    {journal : List (Exchange ι C R)} (trace : Trace step s journal t) :
    ∃ stands, I stands t.world journal ∧ ∀ i, P.Keeps (t.threads i) Q (stands i) := by
  induction trace with
  | start => exact ⟨stands, start, threads⟩
  | thread _ i x next ih =>
    obtain ⟨stands, inv, threads⟩ := ih
    have mine := threads i
    rw [next] at mine
    refine ⟨_, step_keeps _ _ _ i _ x inv mine.1, fun j => ?_⟩
    by_cases same : j = i
    · subst same
      simpa using mine.2 _
    · simpa [Function.update_of_ne same] using threads j

end Threads

end Microfat.Theory
