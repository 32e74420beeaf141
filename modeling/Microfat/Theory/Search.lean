/-
# Microfat.Theory.Search — looking for a pattern, and trying places in turn

`indexOf` is the first place of a pattern in a text.  A pattern whose first letter does
not come back is *borderless*: two of its places are at least its length apart, so a
search that goes on behind a match misses nothing.

`firstAccepted` tries places one after the other with metered code, until one is
accepted or the code fails.
-/
import Microfat.Theory.Meter
import Mathlib.Data.List.Basic

namespace Microfat.Theory

set_option autoImplicit false

section Pattern

variable {α : Type} [DecidableEq α]

/-- `bytes.Index`, for a pattern that is not empty. -/
def indexOf (pattern : List α) : List α → Option Nat
  | [] => none
  | b :: text => if pattern.isPrefixOf (b :: text) then some 0 else (indexOf pattern text).map (· + 1)

variable {pattern : List α} {text : List α}

theorem indexOf_none (nonempty : pattern ≠ []) (missed : indexOf pattern text = none) (i : Nat) :
    ¬ pattern <+: text.drop i := by
  induction text generalizing i with
  | nil => simpa using nonempty
  | cons b text ih =>
    rw [indexOf] at missed
    split at missed
    · cases missed
    · rename_i first
      cases i with
      | zero => simpa using first
      | succ i => exact ih (Option.map_eq_none_iff.mp missed) i

theorem indexOf_some {i : Nat} (found : indexOf pattern text = some i) :
    pattern <+: text.drop i ∧ ∀ j < i, ¬ pattern <+: text.drop j := by
  induction text generalizing i with
  | nil => cases found
  | cons b text ih =>
    rw [indexOf] at found
    split at found
    · rename_i first
      cases found
      exact ⟨by simpa using first, nofun⟩
    · rename_i first
      obtain ⟨k, later, rfl⟩ := Option.map_eq_some_iff.mp found
      obtain ⟨here, before⟩ := ih later
      refine ⟨here, fun j less => ?_⟩
      cases j with
      | zero => simpa using first
      | succ j => exact before j (by omega)

omit [DecidableEq α] in
/-- Two places of a pattern whose first letter is not among its others do not overlap. -/
theorem places_apart {b : α} {rest : List α} (borderless : b ∉ rest) {i j : Nat}
    (here : (b :: rest) <+: text.drop i) (there : (b :: rest) <+: text.drop j) (less : i < j) :
    i + (b :: rest).length ≤ j := by
  by_contra overlap
  rw [List.length_cons] at overlap
  apply borderless
  -- the letter at `j` is the first of one place and a later one of the other
  have first : text[j]? = some b := by
    obtain ⟨tail, whole⟩ := there
    have : (text.drop j)[0]? = some b := by rw [← whole]; rfl
    rwa [List.getElem?_drop, Nat.add_zero] at this
  have later : (b :: rest)[j - i]? = some b := by
    obtain ⟨tail, whole⟩ := here
    have inside : j - i < (b :: rest).length := by rw [List.length_cons]; omega
    have place : ((b :: rest) ++ tail)[j - i]? = some b := by
      rw [whole, List.getElem?_drop, show i + (j - i) = j by omega]
      exact first
    rwa [List.getElem?_append_left inside] at place
  obtain ⟨k, same⟩ : ∃ k, j - i = k + 1 := ⟨j - i - 1, by omega⟩
  rw [same, List.getElem?_cons_succ] at later
  exact List.mem_of_getElem? later

end Pattern

namespace Metered

variable {S E ι : Type}

/-- Try the places in turn until one is accepted. -/
def firstAccepted (examine : ι → Metered S E Bool) : List ι → Metered S E Bool
  | [] => pure false
  | i :: is => do
      if ← examine i then return true
      else firstAccepted examine is

theorem firstAccepted_append (examine : ι → Metered S E Bool) (before after : List ι) :
    firstAccepted examine (before ++ after) = (do
      if ← firstAccepted examine before then return true
      else firstAccepted examine after) := by
  induction before with
  | nil => rfl
  | cons i is ih =>
    rw [List.cons_append, firstAccepted, firstAccepted, bind_assoc]
    refine bind_congr fun accepted => ?_
    cases accepted with
    | true => rfl
    | false =>
      rw [ih]
      rfl

theorem accepted_or_false (m : Metered S E Bool) :
    (do
      if ← m then return true
      else return false) = m := by
  conv_rhs => rw [← bind_pure m]
  refine bind_congr fun accepted => ?_
  cases accepted <;> rfl

/-- The code tries the places in turn, unless it ends between two of them with an error that
is due there: `due` relates the places that are left to the error. -/
def Follows (examine : ι → Metered S E Bool) (due : List ι → E → Prop) (m : Metered S E Bool)
    (places : List ι) : Prop :=
  ∀ s, m s = firstAccepted examine places s ∨
    ∃ n t e, firstAccepted examine (places.take n) s = (.ok false, t) ∧ due (places.drop n) e ∧
      m s = (.error (.error e), t)

variable {examine : ι → Metered S E Bool} {due : List ι → E → Prop} {m : Metered S E Bool}

/-- Where no error is due the code is the search. -/
theorem Follows.eq {places : List ι} (follows : Follows examine due m places)
    (never : ∀ rest e, ¬ due rest e) (s : S) : m s = firstAccepted examine places s := by
  rcases follows s with same | ⟨n, t, e, -, here, -⟩
  · exact same
  · exact absurd here (never _ e)

theorem Follows.append {before after : List ι} (rest : Follows examine due m after) :
    Follows examine due (do
      if ← firstAccepted examine before then return true
      else m) (before ++ after) := by
  intro s
  rw [firstAccepted_append]
  rcases first : firstAccepted examine before s with ⟨fault | accepted, t⟩
  · left
    rw [bind_apply, bind_apply, first]
  · have run : Runs (firstAccepted examine before) s accepted t := first
    rw [run.bind_eq, run.bind_eq]
    cases accepted with
    | true => exact .inl rfl
    | false =>
      refine (rest t).imp (fun same => same) ?_
      rintro ⟨n, u, e, tried, here, failed⟩
      refine ⟨before.length + n, u, e, ?_, ?_, failed⟩
      · rw [List.take_length_add_append, firstAccepted_append, run.bind_eq]
        exact tried
      · rwa [List.drop_length_add_append]

section Trace

variable {log : S → List ι}

/-- A search whose every trial is logged leaves the places it tried in the log, in their
order, and all of them when none was accepted.  Induction over the places. -/
theorem firstAccepted_trace (logged : ∀ i s, log (examine i s).2 = log s ++ [i]) :
    ∀ (places : List ι) (s : S), ∃ n, log (firstAccepted examine places s).2 = log s ++ places.take n ∧
      ((firstAccepted examine places s).1 = .ok false → places.length ≤ n) := by
  intro places
  induction places with
  | nil => exact fun s => ⟨0, by simp [firstAccepted, pure], fun _ => le_rfl⟩
  | cons i is ih =>
    intro s
    have here := logged i s
    rw [firstAccepted, bind_apply]
    rcases trial : examine i s with ⟨fault | accepted, t⟩
    · rw [trial] at here
      exact ⟨1, here, fun same => by cases same⟩
    · rw [trial] at here
      cases accepted with
      | true => exact ⟨1, here, fun same => by cases same⟩
      | false =>
        obtain ⟨n, tried, all⟩ := ih t
        refine ⟨n + 1, ?_, fun same => Nat.succ_le_succ (all same)⟩
        rw [List.take_succ_cons, List.append_cons, ← here]
        exact tried

theorem Follows.trace {places : List ι} (follows : Follows examine due m places)
    (logged : ∀ i s, log (examine i s).2 = log s ++ [i]) (s : S) :
    ∃ n, log (m s).2 = log s ++ places.take n ∧ ((m s).1 = .ok false → places.length ≤ n) := by
  rcases follows s with same | ⟨n, t, e, tried, -, failed⟩
  · rw [same]
    exact firstAccepted_trace logged places s
  · obtain ⟨k, trace, all⟩ := firstAccepted_trace logged (places.take n) s
    rw [tried] at trace all
    rw [failed]
    refine ⟨n, ?_, fun same => by cases same⟩
    rw [trace, List.take_of_length_le (all rfl)]

end Trace

end Metered

end Microfat.Theory
