/-
# Microfat.Theory.Sorting — a sort without stability

`sort.Slice` promises a sorted permutation and nothing about equal elements.
`SliceSort` is that contract: code that sorts is proved for every sort that
meets it, so a result that happens to depend on the order of equal elements
cannot be proved.  `insertionSlice` shows the contract is inhabited.  `MapRange` is
the same for the order in which a `range` loop visits a map.
-/
import Mathlib

namespace Microfat.Theory

set_option autoImplicit false

/-- A comparison `sort.Slice` accepts: a strict weak order. -/
structure StrictWeak {α : Type} (less : α → α → Bool) : Prop where
  asymm : ∀ a b, less a b = true → less b a = false
  trans : ∀ a b c, less a b = false → less b c = false → less a c = false

/-- `sort.Slice`. -/
structure SliceSort where
  sort : {α : Type} → (α → α → Bool) → List α → List α
  perm : ∀ {α : Type} (less : α → α → Bool) (l : List α), (sort less l).Perm l
  sorted : ∀ {α : Type} (less : α → α → Bool) (l : List α), StrictWeak less →
    (sort less l).Pairwise fun a b => less b a = false

namespace SliceSort

variable (S : SliceSort) {α : Type}

theorem mem_sort {less : α → α → Bool} {l : List α} {a : α} : a ∈ S.sort less l ↔ a ∈ l :=
  (S.perm less l).mem_iff

/-- The first element of a sorted slice precedes or ties with every element. -/
theorem head_least {less : α → α → Bool} (order : StrictWeak less) {l rest : List α} {first : α}
    (sorted : S.sort less l = first :: rest) : first ∈ l ∧ ∀ a ∈ l, less a first = false := by
  have pairwise := S.sorted less l order
  rw [sorted] at pairwise
  refine ⟨S.mem_sort.1 (sorted ▸ List.mem_cons_self), fun a member => ?_⟩
  rcases List.mem_cons.1 (sorted ▸ S.mem_sort.2 member) with rfl | later
  · cases tie : less a a with
    | false => rfl
    | true => exact absurd (order.asymm _ _ tie) (by simp [tie])
  · exact (List.pairwise_cons.1 pairwise).1 a later

theorem sort_eq_nil {less : α → α → Bool} {l : List α} (empty : S.sort less l = []) : l = [] :=
  List.Perm.nil_eq (empty ▸ S.perm less l) |>.symm

end SliceSort

/-- Comparing by a key is a strict weak order. -/
theorem strictWeak_key {α : Type} (key : α → Int) :
    StrictWeak fun a b => decide (key a < key b) where
  asymm := by
    intro a b h
    simp only [decide_eq_true_eq, decide_eq_false_iff_not] at *
    omega
  trans := by
    intro a b c hab hbc
    simp only [decide_eq_false_iff_not] at *
    omega

/-- Insertion sort on the complement of `less` meets the contract. -/
def insertionSlice : SliceSort where
  sort less l := l.insertionSort fun a b => less b a = false
  perm less l := List.perm_insertionSort _ l
  sorted less l order := by
    have total : Std.Total fun a b => less b a = false := ⟨fun a b => by
      cases h : less b a with
      | false => exact Or.inl rfl
      | true => exact Or.inr (order.asymm b a h)⟩
    have trans : IsTrans _ fun a b => less b a = false :=
      ⟨fun a b c hab hbc => order.trans c b a hbc hab⟩
    exact List.pairwise_insertionSort (fun a b => less b a = false) l

/-- The order of a `range` loop over the keys of a map. -/
structure MapRange where
  order : {α : Type} → List α → List α
  perm : ∀ {α : Type} (keys : List α), (order keys).Perm keys

/-- The loop that visits the keys in the order they were inserted. -/
def MapRange.inserted : MapRange := ⟨fun keys => keys, fun keys => .refl keys⟩

end Microfat.Theory
