/-
# Microfat.Pack.Admission — how many workers the memory admits

Before variants are compressed in parallel, each plan gets an estimate of the memory its
worker takes, and workers are admitted while the largest estimates fit the budget.

An estimate is `EstimatedPlan`, a plan with what `estimateVariantWorkerMemoryBytes` returned
for it.  `admitWorkersByMemory_eq` says what the loop computes: the number of estimates,
from the largest down, that fit (`fitting`).  `admitWorkersByMemory_sufficient` is the
result: whichever plans the admitted workers get, and whatever concurrency the codec picks
for them later, they stay inside the budget; no sum overflows; and a larger ceiling never
admits fewer.
-/
import Microfat.Codec.Admission
import Microfat.Pack.Stage
import Microfat.Theory.Admission
import Microfat.Theory.Search
import Microfat.Theory.Sorting

namespace Microfat.Pack

open Theory Codec

set_option autoImplicit false

def packMebiByte : Int := 1024 * 1024
def packBaseMemoryReserveBytes : Int := 64 * packMebiByte
def packUsableMemoryNumerator : Int := 17
def packUsableMemoryDenominator : Int := 20
def packRawPayloadGCFactor : Int := 2
def packWorkspaceNoneBytes : Int := 4 * packMebiByte
def packWorkspaceLZ4FastBytes : Int := 16 * packMebiByte
def packWorkspaceLZ4HCBytes : Int := 32 * packMebiByte
def packWorkspaceZstdFastestBytes : Int := 32 * packMebiByte
def packWorkspaceZstdDefaultBytes : Int := 64 * packMebiByte
def packWorkspaceZstdBetterBytes : Int := 112 * packMebiByte
def packWorkspaceZstdBestBytes : Int := 224 * packMebiByte
def packLZ4HCThresholdLevel : Int := 4
def packMinParallelVariants : Nat := 2

section

variable [CaseTable] [LevelNames]

/-! ## Estimates -/

def zstdLevelWorkspaceBytes (mapped : Bytes) : Int :=
  let lower := toLower mapped
  if (indexOf (lit "fastest") lower).isSome then packWorkspaceZstdFastestBytes
  else if (indexOf (lit "better") lower).isSome then packWorkspaceZstdBetterBytes
  else if (indexOf (lit "best") lower).isSome then packWorkspaceZstdBestBytes
  else packWorkspaceZstdDefaultBytes

def encoderWorkspaceBytes (codecName resolvedLevel : Bytes) : Int :=
  if codecName = algorithmNone then packWorkspaceNoneBytes
  else if codecName = algorithmLZ4 then
    let clean := toLower (trimSpace resolvedLevel)
    if clean ∈ [lit "better", lit "best", lit "max"] then packWorkspaceLZ4HCBytes
    else
      match parseLevelInt clean 0 with
      | .ok num => if packLZ4HCThresholdLevel ≤ num then packWorkspaceLZ4HCBytes else packWorkspaceLZ4FastBytes
      | .error _ => packWorkspaceLZ4FastBytes
  else if codecName = algorithmZstd then
    match zstdMapLevel resolvedLevel with
    | .error _ => packWorkspaceZstdDefaultBytes
    | .ok lvl => zstdLevelWorkspaceBytes (LevelNames.string lvl)
  else packWorkspaceZstdDefaultBytes

def estimateVariantWorkerMemoryBytes (uncompressedSize : Int64) (codecName resolvedLevel : Bytes) :
    Eval Err Int64 := do
  let rawSize : Int64 := if uncompressedSize.toInt < 0 then 0 else uncompressedSize
  let workspace ← (if codecName = algorithmLZ4 then do
      let blockBuffers ← lz4EncoderWorkspaceBytes rawSize
      return max (encoderWorkspaceBytes codecName resolvedLevel) blockBuffers.toInt
    else return encoderWorkspaceBytes codecName resolvedLevel)
  let room ← exact64 (Int64.maxValue.toInt - workspace)
  if room.toInt / packRawPayloadGCFactor < rawSize.toInt then return Int64.maxValue
  else do
    let doubled ← exact64 (rawSize.toInt * packRawPayloadGCFactor)
    exact64 (doubled.toInt + workspace)

theorem encoderWorkspaceBytes_range (codecName resolvedLevel : Bytes) :
    0 < encoderWorkspaceBytes codecName resolvedLevel ∧
      encoderWorkspaceBytes codecName resolvedLevel ≤ packWorkspaceZstdBestBytes := by
  unfold encoderWorkspaceBytes zstdLevelWorkspaceBytes
  dsimp only
  repeat' split
  all_goals decide

/-- The workspace of an estimate. -/
def reservedWorkspace (rawSize : Int) (codecName resolvedLevel : Bytes) : Int :=
  if codecName = algorithmLZ4 then
    max (encoderWorkspaceBytes codecName resolvedLevel)
      (if rawSize ≤ lz4DefaultBlockSize.toInt then lz4BytesPerWorker
        else lz4Buffers rawSize maxLZ4BlockConcurrency * lz4BytesPerWorker)
  else encoderWorkspaceBytes codecName resolvedLevel

theorem reservedWorkspace_range (rawSize : Int) (codecName resolvedLevel : Bytes) :
    0 < reservedWorkspace rawSize codecName resolvedLevel ∧
      reservedWorkspace rawSize codecName resolvedLevel ≤ packWorkspaceZstdBestBytes := by
  obtain ⟨positive, small⟩ := encoderWorkspaceBytes_range codecName resolvedLevel
  have most : packWorkspaceZstdBestBytes = 234881024 := by decide
  have unit : lz4BytesPerWorker = 16777216 := by decide
  unfold reservedWorkspace
  split
  · have buffers : lz4Buffers rawSize maxLZ4BlockConcurrency ≤ 10 := by
      unfold lz4Buffers maxLZ4BlockConcurrency
      omega
    rw [unit]
    omega
  · exact ⟨positive, small⟩

omit [CaseTable] [LevelNames] in
theorem maxValue_toInt : Int64.maxValue.toInt = 2 ^ 63 - 1 := by decide

/-- **An estimate is twice the payload and the workspace, or saturated.** -/
theorem estimateVariantWorkerMemoryBytes_eq (uncompressedSize : Int64) (codecName resolvedLevel : Bytes) :
    ∃ bytes : Int64, estimateVariantWorkerMemoryBytes uncompressedSize codecName resolvedLevel = .ok bytes ∧
      0 ≤ bytes.toInt ∧ (bytes = Int64.maxValue ∨
        bytes.toInt = 2 * max uncompressedSize.toInt 0 +
          reservedWorkspace (max uncompressedSize.toInt 0) codecName resolvedLevel) := by
  obtain ⟨positive, small⟩ := encoderWorkspaceBytes_range codecName resolvedLevel
  obtain ⟨rawSize, raw, raw_eq⟩ : ∃ raw : Int64, (if uncompressedSize.toInt < 0 then 0 else uncompressedSize) = raw ∧
      raw.toInt = max uncompressedSize.toInt 0 := by
    refine ⟨_, rfl, ?_⟩
    split
    · rw [show (0 : Int64).toInt = 0 by decide]
      omega
    · omega
  obtain ⟨workspace, reserved, workspace_eq⟩ : ∃ workspace : Int, (if codecName = algorithmLZ4 then do
        let blockBuffers ← lz4EncoderWorkspaceBytes rawSize
        return max (encoderWorkspaceBytes codecName resolvedLevel) blockBuffers.toInt
      else return encoderWorkspaceBytes codecName resolvedLevel : Eval Err Int) = .ok workspace ∧
        workspace = reservedWorkspace rawSize.toInt codecName resolvedLevel := by
    unfold reservedWorkspace
    split
    · obtain ⟨buffers, computed, value⟩ := lz4EncoderWorkspaceBytes_eq rawSize
      rw [computed, Eval.ok_bind]
      exact ⟨_, rfl, by rw [value]⟩
    · exact ⟨_, rfl, rfl⟩
  obtain ⟨some, least⟩ := reservedWorkspace_range rawSize.toInt codecName resolvedLevel
  have largest : packWorkspaceZstdBestBytes = 234881024 := by decide
  have fits : InInt64 (Int64.maxValue.toInt - workspace) := by
    rw [maxValue_toInt]
    exact ⟨by omega, by omega⟩
  unfold estimateVariantWorkerMemoryBytes
  dsimp only
  rw [raw, reserved, Eval.ok_bind, exact64_of_fits fits, Eval.ok_bind, toInt_ofInt64 fits, maxValue_toInt,
    packRawPayloadGCFactor]
  split
  · refine ⟨Int64.maxValue, rfl, ?_, .inl rfl⟩
    rw [maxValue_toInt]
    decide
  · have twice : InInt64 (rawSize.toInt * 2) := ⟨by omega, by omega⟩
    have whole : InInt64 (rawSize.toInt * 2 + workspace) := ⟨by omega, by omega⟩
    rw [exact64_of_fits twice, Eval.ok_bind, toInt_ofInt64 twice, exact64_of_fits whole]
    refine ⟨_, rfl, ?_, .inr ?_⟩
    · rw [toInt_ofInt64 whole]
      omega
    · rw [toInt_ofInt64 whole, workspace_eq, ← raw_eq]
      omega

/-- A plan with the estimate that was made for it. -/
structure EstimatedPlan extends VariantWorkPlan where
  estimatedBytes : Int64
  estimated : estimateVariantWorkerMemoryBytes statSize codecImpl.name resolvedLevel = .ok estimatedBytes

/-! ## Admission -/

/-- The loop over the workers: `i` of them fit so far. -/
def admitFrom (estimates : List Int64) (workerBudget : Int64) : (left i : Nat) → (cumulative : Int64) →
    (admitted : Nat) → Eval Err Nat
  | 0, _, _, admitted => .ok admitted
  | left + 1, i, cumulative, admitted =>
    match estimates[i]? with
    | none => .error (.trap .bounds)
    | some wCost => do
        let room ← sub64 workerBudget cumulative
        if room.toInt < wCost.toInt then return admitted
        else do
          let cumulative ← add64 cumulative wCost
          admitFrom estimates workerBudget left (i + 1) cumulative
            (if packMinParallelVariants ≤ i + 1 then i + 1 else admitted)

def admitWorkersByMemory (S : SliceSort) (plans : List EstimatedPlan) (maxWorkers : Int64) (ceilingBytes : Int64) :
    Eval Err Nat :=
  if ceilingBytes.toInt ≤ 0 || maxWorkers.toInt < packMinParallelVariants then return 1
  else do
    let usableBytes ← exact64 (ceilingBytes.toInt / packUsableMemoryDenominator * packUsableMemoryNumerator)
    if usableBytes.toInt ≤ packBaseMemoryReserveBytes then return 1
    else do
      let workerBudget ← exact64 (usableBytes.toInt - packBaseMemoryReserveBytes)
      let estimates := S.sort (fun a b => decide (b.toInt < a.toInt)) (plans.map (·.estimatedBytes))
      admitFrom estimates workerBudget maxWorkers.toInt.toNat 0 0 1

/-! ## What a worker takes -/

namespace EstimatedPlan

variable (plan : EstimatedPlan)

/-- The bytes of the payload. -/
def payload : Int64 := if plan.statSize.toInt < 0 then 0 else plan.statSize

/-- The workspace of the codec, once it knows its resources: that of the encoder, or the
buffers of the blocks in flight. -/
def workspace (res : CodecResources) : Int :=
  if plan.codecImpl.name = algorithmLZ4 ∧ lz4DefaultBlockSize.toInt < plan.payload.toInt then
    lz4Buffers plan.payload.toInt (computeLZ4Concurrency plan.payload res) * lz4BytesPerWorker
  else encoderWorkspaceBytes plan.codecImpl.name plan.resolvedLevel

/-- The memory of a worker: the payload twice, and the workspace. -/
def footprint (res : CodecResources) : Int := 2 * plan.payload.toInt + plan.workspace res

theorem payload_toInt : plan.payload.toInt = max plan.statSize.toInt 0 := by
  unfold payload
  split
  · rw [show (0 : Int64).toInt = 0 by decide]
    omega
  · omega

theorem workspace_le (res : CodecResources) :
    plan.workspace res ≤ reservedWorkspace plan.payload.toInt plan.codecImpl.name plan.resolvedLevel := by
  unfold workspace reservedWorkspace
  split
  · rename_i several
    obtain ⟨bytes, reserved, value⟩ := lz4EncoderWorkspaceBytes_eq plan.payload
    have covers := lz4EncoderWorkspaceBytes_covers several.2 reserved res
    rw [value] at covers
    rw [if_pos several.1]
    exact covers.trans (le_max_right _ _)
  · split
    · exact le_max_left _ _
    · exact le_rfl

theorem estimatedBytes_nonneg : 0 ≤ plan.estimatedBytes.toInt := by
  obtain ⟨bytes, computed, nonneg, -⟩ :=
    estimateVariantWorkerMemoryBytes_eq plan.statSize plan.codecImpl.name plan.resolvedLevel
  rw [plan.estimated] at computed
  cases computed
  exact nonneg

/-- An estimate that is not saturated covers the worker. -/
theorem footprint_le (res : CodecResources) (exact : plan.estimatedBytes.toInt < Int64.maxValue.toInt) :
    plan.footprint res ≤ plan.estimatedBytes.toInt := by
  obtain ⟨bytes, computed, -, saturated | value⟩ :=
    estimateVariantWorkerMemoryBytes_eq plan.statSize plan.codecImpl.name plan.resolvedLevel
  · rw [plan.estimated] at computed
    cases computed
    rw [saturated] at exact
    omega
  · rw [plan.estimated] at computed
    cases computed
    have enough := plan.workspace_le res
    rw [value, ← plan.payload_toInt, footprint]
    omega

end EstimatedPlan

/-! ## What the loop computes -/

omit [CaseTable] [LevelNames] in
/-- The workers granted: those that fit, and always one.  Induction on the workers left. -/
theorem admitFrom_eq {estimates : List Int64} (nonneg : ∀ e ∈ estimates, 0 ≤ e.toInt) {workerBudget : Int64} :
    ∀ (left i : Nat) (cumulative : Int64), i + left ≤ estimates.length → 0 ≤ cumulative.toInt →
      cumulative.toInt ≤ workerBudget.toInt →
      admitFrom estimates workerBudget left i cumulative (max 1 i) =
        .ok (max 1 (i + fitting (workerBudget.toInt - cumulative.toInt)
          (((estimates.drop i).take left).map Int64.toInt))) := by
  intro left
  induction left with
  | zero =>
    intro i cumulative _ _ _
    rw [admitFrom, List.take_zero]
    rfl
  | succ left ih =>
    intro i cumulative enough first room
    have inside : i < estimates.length := by omega
    obtain ⟨rest, subtracted, rest_eq⟩ := sub64_ordered (E := Err) first room
    rw [admitFrom, List.getElem?_eq_getElem inside, List.drop_eq_getElem_cons inside, List.take_succ_cons,
      List.map_cons, fitting]
    dsimp only
    rw [subtracted, Eval.ok_bind, rest_eq]
    split
    · rfl
    · rename_i fits
      have cost := nonneg _ (List.getElem_mem inside)
      obtain ⟨next, added, next_eq⟩ := add64_inside (E := Err) (z := workerBudget) first cost (by omega)
      have granted : (if packMinParallelVariants ≤ i + 1 then i + 1 else max 1 i) = max 1 (i + 1) := by
        unfold packMinParallelVariants
        split <;> omega
      rw [added, Eval.ok_bind, granted, ih (i + 1) next (by omega) (by omega) (by omega), next_eq, ← Int.sub_sub,
        Nat.add_right_comm, Nat.add_assoc i]

/-- The budget of the workers under a ceiling. -/
def workerBudget (ceiling : Int) : Int :=
  ceiling / packUsableMemoryDenominator * packUsableMemoryNumerator - packBaseMemoryReserveBytes

omit [CaseTable] [LevelNames] in
theorem descending : StrictWeak fun a b : Int64 => decide (b.toInt < a.toInt) where
  asymm := by
    intro a b h
    simp only [decide_eq_true_eq, decide_eq_false_iff_not] at *
    omega
  trans := by
    intro a b c hab hbc
    simp only [decide_eq_false_iff_not] at *
    omega

/-- The estimates, the largest first. -/
def sortedEstimates (S : SliceSort) (plans : List EstimatedPlan) : List Int64 :=
  S.sort (fun a b => decide (b.toInt < a.toInt)) (plans.map (·.estimatedBytes))

section Admit

variable (S : SliceSort) (plans : List EstimatedPlan)

theorem sortedEstimates_perm : (sortedEstimates S plans).Perm (plans.map (·.estimatedBytes)) := S.perm _ _

theorem sortedEstimates_nonneg : ∀ e ∈ sortedEstimates S plans, 0 ≤ e.toInt := by
  intro e mem
  obtain ⟨plan, -, rfl⟩ := List.mem_map.mp ((sortedEstimates_perm S plans).mem_iff.mp mem)
  exact plan.estimatedBytes_nonneg

theorem sortedEstimates_descending : ((sortedEstimates S plans).map Int64.toInt).Pairwise fun a b => b ≤ a := by
  rw [List.pairwise_map]
  refine (S.sorted _ _ descending).imp fun {a b} held => ?_
  rw [decide_eq_false_iff_not] at held
  omega

/-- **The workers admitted** are as many as the largest estimates that fit the budget, and
always one. -/
theorem admitWorkersByMemory_eq {maxWorkers : Int64} (few : maxWorkers.toInt ≤ plans.length) (ceiling : Int64) :
    admitWorkersByMemory S plans maxWorkers ceiling =
      .ok (if ceiling.toInt ≤ 0 ∨ workerBudget ceiling.toInt ≤ 0 then 1
        else max 1 (fitting (workerBudget ceiling.toInt)
          (((sortedEstimates S plans).take maxWorkers.toInt.toNat).map Int64.toInt))) := by
  have reserve : packBaseMemoryReserveBytes = 67108864 := by decide
  have low := ceiling.le_toInt
  have high := ceiling.toInt_lt
  unfold admitWorkersByMemory workerBudget packUsableMemoryDenominator packUsableMemoryNumerator
  rw [reserve]
  split
  · rename_i refused
    rw [Bool.or_eq_true, decide_eq_true_eq, decide_eq_true_eq, packMinParallelVariants] at refused
    split
    · rfl
    · have one : fitting (ceiling.toInt / 20 * 17 - 67108864)
          (((sortedEstimates S plans).take maxWorkers.toInt.toNat).map Int64.toInt) ≤ 1 := by
        refine (fitting_le_length _ _).trans ?_
        rw [List.length_map, List.length_take]
        omega
      rw [max_eq_left one]
      rfl
  · rename_i taken
    rw [Bool.or_eq_true, decide_eq_true_eq, decide_eq_true_eq, packMinParallelVariants] at taken
    have usable : InInt64 (ceiling.toInt / 20 * 17) := ⟨by omega, by omega⟩
    rw [exact64_of_fits usable, Eval.ok_bind, toInt_ofInt64 usable]
    split
    · rw [if_pos (by omega)]
      rfl
    · have budget : InInt64 (ceiling.toInt / 20 * 17 - 67108864) := ⟨by omega, by omega⟩
      have zero : (0 : Int64).toInt = 0 := by decide
      have long : (sortedEstimates S plans).length = plans.length := by
        rw [(sortedEstimates_perm S plans).length_eq, List.length_map]
      rw [exact64_of_fits budget, Eval.ok_bind, if_neg (by omega)]
      refine (admitFrom_eq (sortedEstimates_nonneg S plans) _ 0 0 (by omega) (by omega) ?_).trans ?_
      · rw [toInt_ofInt64 budget]
        omega
      · rw [toInt_ofInt64 budget, zero, Int.sub_zero, List.drop_zero, Nat.zero_add]

/-- The estimates of any plans the admitted workers get fit the budget. -/
theorem chosen_fit (maxWorkers : Nat) {budget : Int} (room : 0 ≤ budget) {chosen : List EstimatedPlan}
    (choice : chosen.Subperm plans)
    (count : chosen.length = fitting budget (((sortedEstimates S plans).take maxWorkers).map Int64.toInt)) :
    (chosen.map fun plan => plan.estimatedBytes.toInt).sum ≤ budget := by
  have within : chosen.length ≤ maxWorkers := by
    rw [count]
    refine (fitting_le_length _ _).trans ?_
    rw [List.length_map, List.length_take]
    exact min_le_left _ _
  have perm : ((sortedEstimates S plans).map Int64.toInt).Perm (plans.map fun plan => plan.estimatedBytes.toInt) := by
    have := (sortedEstimates_perm S plans).map Int64.toInt
    rwa [List.map_map] at this
  calc (chosen.map fun plan => plan.estimatedBytes.toInt).sum
      ≤ (((sortedEstimates S plans).map Int64.toInt).take chosen.length).sum := by
        obtain ⟨listed, same, sub⟩ := choice
        have least := sum_le_take_of_subperm ⟨_, same.map fun plan => plan.estimatedBytes.toInt, sub.map _⟩ perm
          (sortedEstimates_descending S plans)
        rwa [List.length_map] at least
    _ = ((((sortedEstimates S plans).take maxWorkers).map Int64.toInt).take chosen.length).sum := by
        rw [List.map_take, List.take_take, min_eq_left within]
    _ ≤ budget := by
        rw [count]
        exact sum_fitting_le room

/-- **The admission is sufficient.**  It never overflows.  If it admits two workers or more,
then whichever plans they get and whatever resources the codec finds, what they take
together is within the budget.  A larger ceiling admits no fewer. -/
theorem admitWorkersByMemory_sufficient (maxWorkers : Int64) (few : maxWorkers.toInt ≤ plans.length)
    (ceiling : Int64) :
    ∃ k, admitWorkersByMemory S plans maxWorkers ceiling = .ok k ∧
      (2 ≤ k → ∀ chosen : List (EstimatedPlan × CodecResources), (chosen.map Prod.fst).Subperm plans →
        chosen.length = k →
        (chosen.map fun c => c.1.footprint c.2).sum ≤ ceiling.toInt / 20 * 17 - 64 * 1024 * 1024) ∧
      ∀ larger : Int64, ceiling.toInt ≤ larger.toInt →
        ∃ k', admitWorkersByMemory S plans maxWorkers larger = .ok k' ∧ k ≤ k' := by
  have budget_eq : ∀ c : Int, workerBudget c = c / 20 * 17 - 67108864 := fun c => rfl
  refine ⟨_, admitWorkersByMemory_eq S plans few ceiling, fun several chosen choice count => ?_,
    fun larger more => ⟨_, admitWorkersByMemory_eq S plans few larger, ?_⟩⟩
  · have taken : ¬ (ceiling.toInt ≤ 0 ∨ workerBudget ceiling.toInt ≤ 0) := by
      intro refused
      rw [if_pos refused] at several
      omega
    rw [if_neg taken] at several count
    have room : 0 ≤ workerBudget ceiling.toInt := by omega
    have fit := chosen_fit S plans maxWorkers.toInt.toNat room choice (by rw [List.length_map]; omega)
    rw [List.map_map] at fit
    have high := ceiling.toInt_lt
    calc (chosen.map fun c => c.1.footprint c.2).sum
        ≤ (chosen.map fun c => c.1.estimatedBytes.toInt).sum := by
          refine List.sum_le_sum fun c mem => c.1.footprint_le c.2 ?_
          have one : c.1.estimatedBytes.toInt ≤ (chosen.map fun c => c.1.estimatedBytes.toInt).sum :=
            List.single_le_sum (by
              intro e listed
              obtain ⟨d, -, rfl⟩ := List.mem_map.mp listed
              exact d.1.estimatedBytes_nonneg) _ (List.mem_map.mpr ⟨c, mem, rfl⟩)
          rw [maxValue_toInt]
          have := budget_eq ceiling.toInt
          have := le_trans one fit
          omega
      _ ≤ ceiling.toInt / 20 * 17 - 64 * 1024 * 1024 := fit
  · have := budget_eq ceiling.toInt
    have := budget_eq larger.toInt
    by_cases refused : ceiling.toInt ≤ 0 ∨ workerBudget ceiling.toInt ≤ 0
    · rw [if_pos refused]
      split <;> omega
    · rw [if_neg refused, if_neg (by omega)]
      have mono : workerBudget ceiling.toInt ≤ workerBudget larger.toInt := by omega
      exact max_le_max le_rfl (fitting_mono mono _)

end Admit

end

/-! ## Two variants -/

local instance admissionTable : CaseTable := CaseTable.ascii
local instance admissionNames : LevelNames := ⟨fun _ => []⟩

/-- A variant of one mebibyte, stored as it is, and one of ten blocks for LZ4. -/
def smallPlan : EstimatedPlan where
  level := lit "v1"
  normalizedLvl := lit "v1"
  cleanPath := lit "a"
  statSize := 1024 * 1024
  codecImpl := ⟨algorithmNone, fun _ _ => ⟨[], none⟩, fun _ _ => .ok [], none⟩
  resolvedLevel := []
  estimatedBytes := 6 * 1024 * 1024
  estimated := Eval.eq_ok_of_toOption (by decide +kernel)

def blocksPlan : EstimatedPlan where
  level := lit "v3"
  normalizedLvl := lit "v3"
  cleanPath := lit "b"
  statSize := 40 * 1024 * 1024
  codecImpl := ⟨algorithmLZ4, fun _ _ => ⟨[], none⟩, fun _ _ => .ok [], none⟩
  resolvedLevel := lit "best"
  estimatedBytes := 240 * 1024 * 1024
  estimated := Eval.eq_ok_of_toOption (by decide +kernel)

/-- Both under a ceiling of 512 mebibytes, and no longer under 256. -/
theorem admitWorkersByMemory_sufficient_small :
    admitWorkersByMemory insertionSlice [smallPlan, blocksPlan] 2 (512 * 1024 * 1024) = .ok 2 ∧
      admitWorkersByMemory insertionSlice [smallPlan, blocksPlan] 2 (256 * 1024 * 1024) = .ok 1 ∧
      ∀ res res', smallPlan.footprint res + blocksPlan.footprint res' ≤ 26843545 * 17 - 64 * 1024 * 1024 := by
  have two : admitWorkersByMemory insertionSlice [smallPlan, blocksPlan] 2 (512 * 1024 * 1024) = .ok 2 :=
    Eval.eq_ok_of_toOption (by decide +kernel)
  refine ⟨two, Eval.eq_ok_of_toOption (by decide +kernel), fun res res' => ?_⟩
  obtain ⟨k, admitted, sufficient, -⟩ := admitWorkersByMemory_sufficient insertionSlice [smallPlan, blocksPlan] 2
    (by decide) (512 * 1024 * 1024)
  rw [two] at admitted
  cases admitted
  have within := sufficient le_rfl [(smallPlan, res), (blocksPlan, res')] (List.Subperm.refl _) rfl
  have ceiling : (512 * 1024 * 1024 : Int64).toInt = 536870912 := by decide
  simp only [List.map_cons, List.map_nil, List.sum_cons, List.sum_nil, add_zero, ceiling] at within
  omega

end Microfat.Pack
