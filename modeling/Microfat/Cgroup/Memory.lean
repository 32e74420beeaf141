/-
# Microfat.Cgroup.Memory — memory ceilings and the extraction estimate

The limits a cgroup reading reports, the effective ceiling that tuning and
extraction use, and the checked sum that estimates what an extraction needs.
The CPU fields of the reading are not part of the model.
-/
import Microfat.Sentinels

namespace Microfat.Cgroup

open Theory

set_option autoImplicit false

def versionUnknown : Int := 0
def defaultMinHeadroomBytes : Int64 := 64 * 1024 * 1024
def unlimitedCgroupV1MemoryThreshold : Int64 := 1024 * 1024 * 1024 * 1024 * 1024
def maxInt64 : Int := 2 ^ 63 - 1

structure Limits where
  cgroupVersion : Int
  memoryLimitBytes : Int64
  memoryHighBytes : Int64
  effectiveMemoryLimitBytes : Int64
  memoryLimitFinite : Bool
  memoryHighFinite : Bool
  deriving DecidableEq

def Limits.hasMemoryLimit (l : Limits) : Bool :=
  l.memoryLimitFinite || 0 < l.memoryLimitBytes.toInt

def Limits.hasMemoryHigh (l : Limits) : Bool :=
  l.memoryHighFinite || 0 < l.memoryHighBytes.toInt

def calculateEffectiveMemoryLimit (maxBytes highBytes : Int64) : Int64 :=
  if 0 < maxBytes.toInt && 0 < highBytes.toInt then
    if highBytes.toInt < maxBytes.toInt then highBytes else maxBytes
  else if 0 < highBytes.toInt then highBytes
  else if 0 < maxBytes.toInt then maxBytes
  else 0

/-- The ceiling, and whether it is finite. -/
def Limits.effectiveMemoryLimit (l : Limits) : Int64 × Bool :=
  if l.hasMemoryLimit && l.memoryLimitBytes.toInt = 0 ||
      l.hasMemoryHigh && l.memoryHighBytes.toInt = 0 then (0, true)
  else if 0 < l.effectiveMemoryLimitBytes.toInt then (l.effectiveMemoryLimitBytes, true)
  else
    (calculateEffectiveMemoryLimit l.memoryLimitBytes l.memoryHighBytes,
      l.hasMemoryLimit || l.hasMemoryHigh)

/-- The loop of `ExtractionMemory`. -/
def addAll : Int64 → List Int64 → Except Err Int64
  | total, [] => .ok total
  | total, value :: rest =>
    if value.toInt < 0 || maxInt64 - total.toInt < value.toInt then
      .error (.sentinel .errMemoryBudget)
    else addAll (total + value) rest

def extractionMemory (payload dictionary decoder reserve : Int64) : Except Err Int64 :=
  addAll 0 [payload, dictionary, decoder, reserve]

/-- A checked step is the exact sum. -/
theorem toInt_add_checked {total value : Int64} (nonneg : 0 ≤ total.toInt) (positive : 0 ≤ value.toInt)
    (room : value.toInt ≤ maxInt64 - total.toInt) :
    (total + value).toInt = total.toInt + value.toInt := by
  have upper : total.toInt + value.toInt < 2 ^ 63 := by
    rw [maxInt64] at room
    omega
  rw [Int64.toInt_add, Int.bmod_eq_of_le] <;> simp <;> omega

theorem addAll_ok {values : List Int64} : ∀ {total sum : Int64}, 0 ≤ total.toInt →
    addAll total values = .ok sum → sum.toInt = total.toInt + (values.map Int64.toInt).sum := by
  induction values with
  | nil =>
    intro total sum _ h
    cases h
    simp
  | cons value rest ih =>
    intro total sum nonneg h
    rw [addAll] at h
    split at h
    · cases h
    · next fits =>
        rw [Bool.or_eq_true, not_or, decide_eq_true_eq, decide_eq_true_eq, Int.not_lt, Int.not_lt] at fits
        have step := toInt_add_checked nonneg fits.1 fits.2
        rw [ih (by omega) h, step, List.map_cons, List.sum_cons]
        omega

theorem addAll_fits {values : List Int64} : ∀ {total : Int64}, 0 ≤ total.toInt →
    (∀ v ∈ values, 0 ≤ v.toInt) → total.toInt + (values.map Int64.toInt).sum < 2 ^ 63 →
    ∃ sum, addAll total values = .ok sum := by
  induction values with
  | nil => exact fun _ _ _ => ⟨_, rfl⟩
  | cons value rest ih =>
    intro total nonneg positive small
    have first := positive value (by simp)
    have others : ∀ v ∈ rest, 0 ≤ v.toInt := fun v mem => positive v (List.mem_cons_of_mem _ mem)
    have restNonneg : 0 ≤ (rest.map Int64.toInt).sum := by
      apply List.sum_nonneg
      intro n mem
      obtain ⟨v, inside, rfl⟩ := List.mem_map.mp mem
      exact others v inside
    rw [List.map_cons, List.sum_cons] at small
    have room : value.toInt ≤ maxInt64 - total.toInt := by
      rw [maxInt64]
      omega
    have fits : ¬ ((decide (value.toInt < 0) || decide (maxInt64 - total.toInt < value.toInt)) = true) := by
      rw [Bool.or_eq_true, not_or, decide_eq_true_eq, decide_eq_true_eq]
      omega
    have step := toInt_add_checked nonneg first room
    rw [addAll, if_neg fits]
    exact ih (by omega) others (by omega)

/-- The estimate is the exact sum of its four parts. -/
theorem extractionMemory_ok {payload dictionary decoder reserve estimate : Int64}
    (h : extractionMemory payload dictionary decoder reserve = .ok estimate) :
    estimate.toInt = payload.toInt + dictionary.toInt + decoder.toInt + reserve.toInt := by
  have sum := addAll_ok (by decide) h
  simp only [List.map_cons, List.map_nil, List.sum_cons, List.sum_nil, Int64.toInt_zero] at sum
  omega

end Microfat.Cgroup
