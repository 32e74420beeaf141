/-
# Microfat.Cgroup.HeapBudget — the heap budget grows with the ceiling

The memory limit of a plan is a function of what the retained executable leaves of
the effective ceiling: the smaller of the ratio product and of what the headroom
leaves, where the headroom is itself capped at half.  `heapBudget` is that function
over the integers, `plan_gomemlimitBytes` says the plan computes it, and the order
facts are proved of `heapBudget`.

The product of a ceiling and a ratio is a rounded floating-point product, so it enters
as any function with the properties of `RatioProduct`.
-/
import Microfat.Cgroup.Tuning

namespace Microfat.Cgroup

open Theory

set_option autoImplicit false

/-! ## The budget of what is left -/

/-- The budget for `left` bytes of which the ratio admits `product`. -/
def heapBudget (headroom product left : Int) : Int :=
  if 2 ≤ left ∧ 0 < product then min product (max (left / 2) (left - headroom)) else 0

theorem heapBudget_nonneg (headroom product left : Int) : 0 ≤ heapBudget headroom product left := by
  rw [heapBudget]
  split <;> omega

/-- The capped headroom is a sum of growing parts: half of what is left, or all but a
constant. -/
theorem heapBudget_mono {headroom product product' left left' : Int} (products : product ≤ product')
    (lefts : left ≤ left') :
    heapBudget headroom product left ≤ heapBudget headroom product' left' := by
  by_cases budgeted : 2 ≤ left ∧ 0 < product
  · have half : left / 2 ≤ left' / 2 := Int.ediv_le_ediv (by omega) lefts
    rw [heapBudget, heapBudget, if_pos budgeted, if_pos (by omega)]
    omega
  · rw [heapBudget, if_neg budgeted]
    exact heapBudget_nonneg headroom product' left'

theorem heapBudget_headroom {headroom left : Int} (product : Int) (positive : 0 < left) :
    heapBudget headroom product left ≤ left - min headroom ((left + 1) / 2) := by
  rw [heapBudget]
  split <;> omega

/-! ## The budget of a plan -/

section

variable [Float64]

/-- The ratio product of ceilings below the unlimited threshold: it grows with the
ceiling and stays between zero and the ceiling. -/
structure RatioProduct (ratio : Float64.F) : Prop where
  nonneg : ∀ x : Int64, 0 ≤ x.toInt → x.toInt < 2 ^ 50 → 0 ≤ (Float64.floorMul x ratio).toInt
  le_self : ∀ x : Int64, 0 ≤ x.toInt → x.toInt < 2 ^ 50 → (Float64.floorMul x ratio).toInt ≤ x.toInt
  mono : ∀ x y : Int64, 0 ≤ x.toInt → x.toInt ≤ y.toInt → y.toInt < 2 ^ 50 →
    (Float64.floorMul x ratio).toInt ≤ (Float64.floorMul y ratio).toInt

variable {envRatioStr : Bytes} {defaultRatio : Float64.F} {minHeadroomBytes : Int64}
  {profile : GCProfile}

omit [Float64] in
theorem usedHeadroom_idem (headroom : Int64) : usedHeadroom (usedHeadroom headroom) = usedHeadroom headroom := by
  have positive := usedHeadroom_positive headroom
  rw [usedHeadroom, if_neg (by omega)]

/-- What the retained executable leaves of the effective ceiling. -/
def Resources.left (limits : Resources) : Int64 :=
  retainedMemoryLimit limits.effectiveMemoryLimit.1 limits.retainedExecutableBytes

theorem Resources.left_toInt (limits : Resources) (kept : 0 ≤ limits.retainedExecutableBytes.toInt) :
    limits.left.toInt =
      max 0 (limits.effectiveMemoryLimit.1.toInt - limits.retainedExecutableBytes.toInt) := by
  have effective : limits.effectiveMemoryLimit =
      (limits.effectiveMemoryLimit.1, limits.effectiveMemoryLimit.2) := rfl
  exact retainedMemoryLimit_toInt (effectiveMemoryLimit_nonneg effective) kept

/-- The bytes of a plan are the budget of what is left. -/
theorem plan_gomemlimitBytes {limits : Resources} {liveHeap : Int64} (small : limits.left.toInt < 2 ^ 50) :
    (resolveTuningPlanWithProfile limits envRatioStr defaultRatio minHeadroomBytes profile
        liveHeap).gomemlimitBytes.toInt =
      heapBudget (usedHeadroom minHeadroomBytes).toInt
        (Float64.floorMul limits.left (usedRatio (resolveTuningRatio envRatioStr defaultRatio profile))).toInt
        limits.left.toInt := by
  have effective : limits.effectiveMemoryLimit =
      (limits.effectiveMemoryLimit.1, limits.effectiveMemoryLimit.2) := rfl
  rcases plan_planned rfl effective with ⟨budget, budgeted, bytes, -⟩ | ⟨unbudgeted, bytes, -⟩
  · obtain ⟨two, -, product, exact⟩ := calculateGOMEMLIMIT_iff.mp budgeted
    rw [bytes, exact, heapBudget, if_pos ⟨two, product⟩, usedHeadroom_idem, Resources.left]
  · rw [bytes, heapBudget, if_neg]
    · rfl
    · rintro ⟨two, product⟩
      obtain ⟨budget, budgeted⟩ := calculateGOMEMLIMIT_some two small product
      rw [Resources.left, unbudgeted] at budgeted
      cases budgeted

/-- **The heap budget grows with the ceiling, shrinks with the retained executable, and
leaves the headroom free.** -/
theorem plan_budget_monotone {limits limits' : Resources} {liveHeap liveHeap' : Int64}
    (product : RatioProduct (usedRatio (resolveTuningRatio envRatioStr defaultRatio profile)))
    (ceilings : limits.effectiveMemoryLimit.1.toInt ≤ limits'.effectiveMemoryLimit.1.toInt)
    (below : limits'.effectiveMemoryLimit.1.toInt < unlimitedCgroupV1MemoryThreshold.toInt)
    (kept : 0 ≤ limits'.retainedExecutableBytes.toInt)
    (retained : limits'.retainedExecutableBytes.toInt ≤ limits.retainedExecutableBytes.toInt) :
    (resolveTuningPlanWithProfile limits envRatioStr defaultRatio minHeadroomBytes profile
        liveHeap).gomemlimitBytes.toInt ≤
      (resolveTuningPlanWithProfile limits' envRatioStr defaultRatio minHeadroomBytes profile
        liveHeap').gomemlimitBytes.toInt ∧
    ∀ left, left = limits.effectiveMemoryLimit.1.toInt - limits.retainedExecutableBytes.toInt → 0 < left →
      (resolveTuningPlanWithProfile limits envRatioStr defaultRatio minHeadroomBytes profile
        liveHeap).gomemlimitBytes.toInt ≤
        left - min (usedHeadroom minHeadroomBytes).toInt ((left + 1) / 2) := by
  have lefts := limits.left_toInt (by omega)
  have lefts' := limits'.left_toInt kept
  rw [toInt_threshold] at below
  rw [plan_gomemlimitBytes (by omega), plan_gomemlimitBytes (by omega)]
  have ordered : limits.left.toInt ≤ limits'.left.toInt := by omega
  refine ⟨heapBudget_mono (product.mono _ _ (by omega) ordered (by omega)) ordered, ?_⟩
  intro left left_eq positive
  have same : limits.left.toInt = left := by omega
  rw [same]
  exact heapBudget_headroom _ positive

end

section

local instance budgetFloats : Float64 := fractions

/-- The exact product with a ratio of the unit interval is a ratio product. -/
theorem ratioProduct_fractions {ratio : ℚ} (nonneg : 0 ≤ ratio) (unit : ratio ≤ 1) :
    RatioProduct (ratio : Float64.F) := by
  have exact : ∀ x : Int64, 0 ≤ x.toInt → x.toInt < 2 ^ 50 →
      (Float64.floorMul x ratio).toInt = ⌊(x.toInt : ℚ) * ratio⌋ ∧ 0 ≤ ⌊(x.toInt : ℚ) * ratio⌋ ∧
        ⌊(x.toInt : ℚ) * ratio⌋ ≤ x.toInt := by
    intro x least small
    have cast : (0 : ℚ) ≤ x.toInt := by exact_mod_cast least
    have low : 0 ≤ ⌊(x.toInt : ℚ) * ratio⌋ := Int.floor_nonneg.mpr (mul_nonneg cast nonneg)
    have high : ⌊(x.toInt : ℚ) * ratio⌋ ≤ x.toInt := by
      have := Int.floor_le_floor (mul_le_of_le_one_right cast unit)
      rwa [Int.floor_intCast] at this
    exact ⟨Int64.toInt_ofInt_of_le (by omega) (by omega), low, high⟩
  refine ⟨fun x least small => ?_, fun x least small => ?_, fun x y least ordered small => ?_⟩
  · have := exact x least small
    omega
  · have := exact x least small
    omega
  · rw [(exact x least (by omega)).1, (exact y (by omega) small).1]
    exact Int.floor_le_floor (mul_le_mul_of_nonneg_right (by exact_mod_cast ordered) nonneg)

/-- A gibibyte admits at least the budget of a mebibyte of which a page is retained. -/
theorem plan_budget_monotone_gibi :
    (resolveTuningPlanWithProfile (ceilingOf (1024 ^ 2) 4096) [] (9 / 10 : ℚ) 0 .default 0).gomemlimitBytes.toInt ≤
      (resolveTuningPlanWithProfile (ceilingOf (1024 ^ 3) 0) [] (9 / 10 : ℚ) 0 .default 0).gomemlimitBytes.toInt := by
  have ratio : usedRatio (resolveTuningRatio [] (9 / 10 : ℚ) .default) = (9 / 10 : ℚ) :=
    show (_ : ℚ) = _ by decide +kernel
  have product : RatioProduct (usedRatio (resolveTuningRatio [] (9 / 10 : ℚ) .default)) := by
    apply ratioProduct_fractions <;> rw [ratio] <;> norm_num
  refine (plan_budget_monotone product ?_ ?_ ?_ ?_).1 <;> decide

end

end Microfat.Cgroup
