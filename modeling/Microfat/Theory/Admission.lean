/-
# Microfat.Theory.Admission — how many of the largest demands fit a budget

Demands are taken one after the other while the next one fits what is left of the budget;
`fitting` counts them.  On demands sorted from the largest down the count is safe for any
choice of as many demands: `sum_le_take` says that no choice asks for more than the largest
ones, and `sum_fitting_le` that those fit.
-/
import Mathlib

namespace Microfat.Theory

set_option autoImplicit false

section

variable {α : Type} [AddCommGroup α] [LinearOrder α]

/-- The number of demands taken from the front before one does not fit. -/
def fitting : α → List α → Nat
  | _, [] => 0
  | budget, cost :: costs => if budget < cost then 0 else fitting (budget - cost) costs + 1

theorem fitting_le_length (budget : α) (costs : List α) : fitting budget costs ≤ costs.length := by
  induction costs generalizing budget with
  | nil => exact le_rfl
  | cons cost costs ih =>
    rw [fitting, List.length_cons]
    split
    · exact Nat.zero_le _
    · exact Nat.succ_le_succ (ih _)

variable [IsOrderedAddMonoid α]

/-- The demands taken fit the budget.  Induction over them. -/
theorem sum_fitting_le {budget : α} {costs : List α} (room : 0 ≤ budget) :
    (costs.take (fitting budget costs)).sum ≤ budget := by
  induction costs generalizing budget with
  | nil => simpa using room
  | cons cost costs ih =>
    rw [fitting]
    split
    · simpa using room
    · rename_i fits
      rw [List.take_succ_cons, List.sum_cons]
      have rest := ih (sub_nonneg.mpr (not_lt.mp fits))
      exact le_sub_iff_add_le'.mp rest

theorem fitting_mono {budget larger : α} (more : budget ≤ larger) (costs : List α) :
    fitting budget costs ≤ fitting larger costs := by
  induction costs generalizing budget larger with
  | nil => exact le_rfl
  | cons cost costs ih =>
    rw [fitting, fitting]
    by_cases full : budget < cost
    · rw [if_pos full]
      exact Nat.zero_le _
    · have fits : ¬ larger < cost := not_lt.mpr ((not_lt.mp full).trans more)
      rw [if_neg full, if_neg fits]
      exact Nat.succ_le_succ (ih (sub_le_sub_right more cost))

/-- One more demand in front, at least as large as the others, does not make the first
ones cheaper. -/
theorem take_sum_le_cons {cost : α} {costs : List α} (largest : ∀ c ∈ costs, c ≤ cost) {n : Nat}
    (enough : n ≤ costs.length) : (costs.take n).sum ≤ ((cost :: costs).take n).sum := by
  cases n with
  | zero => exact le_rfl
  | succ n =>
    rw [List.take_succ_cons, List.sum_cons, List.take_succ_eq_append_getElem enough, List.sum_append,
      List.sum_singleton, add_comm]
    exact add_le_add_left (largest _ (List.getElem_mem enough)) _

/-- **No choice asks for more than the largest demands.**  Induction over the choice, which
skips a demand or takes it. -/
theorem sum_le_take {chosen costs : List α} (choice : chosen.Sublist costs)
    (sorted : costs.Pairwise fun a b => b ≤ a) : chosen.sum ≤ (costs.take chosen.length).sum := by
  induction choice with
  | slnil => exact le_rfl
  | @cons chosen costs cost choice ih =>
    rw [List.pairwise_cons] at sorted
    exact (ih sorted.2).trans (take_sum_le_cons sorted.1 choice.length_le)
  | @cons_cons chosen costs cost choice ih =>
    rw [List.pairwise_cons] at sorted
    rw [List.length_cons, List.take_succ_cons, List.sum_cons, List.sum_cons]
    exact add_le_add_right (ih sorted.2) cost

theorem sum_le_take_of_subperm {chosen costs sorted : List α} (choice : chosen.Subperm costs)
    (perm : sorted.Perm costs) (descending : sorted.Pairwise fun a b => b ≤ a) :
    chosen.sum ≤ (sorted.take chosen.length).sum := by
  obtain ⟨listed, same, sub⟩ := choice.trans perm.symm.subperm
  rw [← same.sum_eq, ← same.length_eq]
  exact sum_le_take sub descending

end

end Microfat.Theory
