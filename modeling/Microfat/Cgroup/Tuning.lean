/-
# Microfat.Cgroup.Tuning — the Go runtime settings for a container

`resolveTuningPlanWithProfile` turns a cgroup reading into values for `GOMEMLIMIT`,
`GOMAXPROCS` and `GOGC`.  Floating point appears in it as a handful of operations
(`Float64`); about the ratio product nothing is assumed, and of the adaptive
percentage only that rounding respects the lower clamp (`LawfulFloat64`).

* `plan_of_finite_ceiling`: when a finite ceiling becomes a memory limit,
  and that the limit fits below the ceiling less the retained executable;
* `plan_off`: a plan turns collection off only together with
  a finite memory limit;
* `runtimeMemoryLimit_bytes`: the planned limit reads back as the number it is.
-/
import Microfat.Cgroup.Memory
import Microfat.Theory.Strconv

namespace Microfat.Cgroup

open Theory Theory.Json

set_option autoImplicit false

/-! ## Floating point -/

/-- The `float64` operations of tuning. -/
class Float64 where
  F : Type
  ofInt : Int → F
  less : F → F → Bool
  equal : F → F → Bool
  /-- Neither `NaN` nor infinite. -/
  finite : F → Bool
  defaultMemoryRatio : F
  defaultMemoryConstrainedRatio : F
  /-- `strconv.ParseFloat(s, 64)`. -/
  parse : Bytes → Option F
  /-- `int64(math.Floor(float64(n) * r))`. -/
  floorMul : Int64 → F → Int64
  /-- `int(math.Floor(q))`. -/
  floor : F → Int
  /-- `(float64(a)/float64(l) - 1.0) * 100.0`. -/
  scaledHeadroom : Int64 → Int64 → F
  /-- `int(math.Round(x))`. -/
  round : F → Int
  /-- `fmt.Sprintf("%.2f", x)`. -/
  format : F → Bytes

/-- What rounding does to a clamped percentage: the bounds are exact, and a value
between them does not round below the lower one. -/
class LawfulFloat64 [Float64] : Prop where
  round_ofInt : ∀ n : Int, 0 ≤ n → n ≤ 100 → Float64.round (Float64.ofInt n) = n
  round_scaled : ∀ a l : Int64, 0 < a.toInt → 0 < l.toInt →
    Float64.less (Float64.scaledHeadroom a l) (Float64.ofInt 10) = false →
    Float64.less (Float64.ofInt 100) (Float64.scaledHeadroom a l) = false →
      10 ≤ Float64.round (Float64.scaledHeadroom a l)

section

variable [Float64]

/-- Neither `math.IsNaN`, `math.IsInf`, `ratio <= 0` nor `ratio > 1.0`. -/
def inUnit (ratio : Float64.F) : Bool :=
  Float64.finite ratio && Float64.less (Float64.ofInt 0) ratio && !Float64.less (Float64.ofInt 1) ratio

/-! ## Readings and plans -/

/-- `cgroup.Limits` with its CPU fields and the retained executable. -/
structure Resources extends Limits where
  retainedExecutableBytes : Int64
  cpuQuota : Float64.F
  cpus : Int

/-- `cgroup.GCProfile`: the named profiles, and any other text a caller chooses. -/
inductive GCProfile where
  | default
  | latencyCritical
  | memoryConstrained
  | batchETL
  | adaptive
  | other (name : Bytes)
  deriving DecidableEq

def GCProfile.text : GCProfile → Bytes
  | .default => lit "default"
  | .latencyCritical => lit "latency_critical"
  | .memoryConstrained => lit "memory_constrained"
  | .batchETL => lit "batch_etl"
  | .adaptive => lit "adaptive"
  | .other name => name

structure TuningPlan where
  gomemlimitBytes : Int64
  gomemlimitStr : Bytes
  constrainingLimit : Bytes
  gomaxprocs : Int
  gomaxprocsStr : Bytes
  appliedRatio : Float64.F
  gogc : Int
  gogcStr : Bytes
  gcProfile : GCProfile
  gogcApplied : Bool
  gogcSkippedReason : Bytes

/-! ## Ceilings -/

def limitConstraintNone : Bytes := []
def limitConstraintMax : Bytes := lit "max"
def limitConstraintHigh : Bytes := lit "high"

end

def Limits.constrainingMemoryLimit (l : Limits) : Bytes :=
  if l.hasMemoryHigh && (!l.hasMemoryLimit || l.memoryHighBytes.toInt < l.memoryLimitBytes.toInt) then
    limitConstraintHigh
  else if l.hasMemoryLimit then limitConstraintMax
  else limitConstraintNone

/-- What is left of a ceiling beside the retained executable. -/
def retainedMemoryLimit (limit retained : Int64) : Int64 :=
  if retained.toInt < 0 || limit.toInt ≤ retained.toInt then 0 else limit - retained

def minInt64 (a b : Int64) : Int64 := if b.toInt < a.toInt then b else a

section

variable [Float64]

def calculateGOMEMLIMIT (limitBytes : Int64) (ratio : Float64.F) (minHeadroomBytes : Int64) : Option Int64 :=
  if limitBytes.toInt ≤ 0 || unlimitedCgroupV1MemoryThreshold.toInt ≤ limitBytes.toInt then none
  else
    let ratio := if inUnit ratio then ratio else Float64.defaultMemoryRatio
    let minHeadroomBytes := if minHeadroomBytes.toInt ≤ 0 then defaultMinHeadroomBytes else minHeadroomBytes
    let ratioBudget := Float64.floorMul limitBytes ratio
    let half := limitBytes / 2
    let reserved := minInt64 minHeadroomBytes (limitBytes - half)
    let headroomBudget := limitBytes - reserved
    let budget := minInt64 ratioBudget headroomBudget
    if budget.toInt ≤ 0 then none else some budget

def calculateGOMAXPROCS (quota : Float64.F) : Option Int :=
  if !Float64.less (Float64.ofInt 0) quota || !Float64.finite quota then none
  else some (max (Float64.floor quota) 1)

def calculateAdaptiveGOGC (availableHeadroomBytes liveHeapBytes : Int64) : Option Int :=
  if availableHeadroomBytes.toInt ≤ 0 || liveHeapBytes.toInt ≤ 0 then none
  else
    let gogc := Float64.scaledHeadroom availableHeadroomBytes liveHeapBytes
    let gogc := if Float64.less gogc (Float64.ofInt 10) then Float64.ofInt 10 else gogc
    let gogc := if Float64.less (Float64.ofInt 100) gogc then Float64.ofInt 100 else gogc
    some (Float64.round gogc)

end

/-! ## Settings in text -/

section

variable [CaseTable]

/-- The profile, and the error for an unknown name, which goes with the default profile. -/
def parseGCProfile (s : Bytes) : GCProfile × Option Err :=
  let norm := (toLower (trimSpace s)).map fun b => if b = 45 then 95 else b
  if norm = [] || norm = GCProfile.default.text then (.default, none)
  else if norm = GCProfile.latencyCritical.text || norm = lit "latency" then (.latencyCritical, none)
  else if norm = GCProfile.memoryConstrained.text || norm = lit "memory" then (.memoryConstrained, none)
  else if norm = GCProfile.batchETL.text || norm = lit "batch" || norm = lit "etl" then (.batchETL, none)
  else if norm = GCProfile.adaptive.text || norm = lit "dynamic" then (.adaptive, none)
  else (.default, some (.errorf [.text "unknown GC profile: ", .quoted s] [] []))

inductive CPUPolicy where
  | static
  | native
  deriving DecidableEq

def CPUPolicy.parse (s : Bytes) : Option CPUPolicy :=
  let policy := toLower (trimSpace s)
  if policy = lit "static" then some .static else if policy = lit "native" then some .native else none

/-- A setting of the environment outranks the fallback. -/
def resolveCPUPolicy (envValue : Bytes) (fallback : CPUPolicy) : CPUPolicy :=
  (CPUPolicy.parse envValue).getD fallback

/-! ### Byte sizes -/

/-- The loop of `splitByteSizeToken`: digits and at most one point from position `i`
on, with the position of the point and the number of digits. -/
def scanNumber (s : Bytes) : Nat → Option Nat → Nat → Bytes → Except Err (Nat × Option Nat × Nat)
  | i, dotIndex, digitsCount, [] => .ok (i, dotIndex, digitsCount)
  | i, dotIndex, digitsCount, ch :: rest =>
    if isDigit ch then scanNumber s (i + 1) dotIndex (digitsCount + 1) rest
    else if ch = 46 then
      if dotIndex.isSome then
        .error (.errorf [.text "invalid byte size ", .quoted s, .text ": multiple decimal points"] [] [])
      else scanNumber s (i + 1) (some i) digitsCount rest
    else .ok (i, dotIndex, digitsCount)

def splitByteSizeToken (s : Bytes) : Except Err (Bytes × Bytes × Option Nat) := do
  let trimmed := trimSpace s
  if trimmed = [] then throw (.new "empty byte size string")
  let (i, dotIndex, digitsCount) ← scanNumber s 0 none 0 trimmed
  if digitsCount = 0 then
    throw (.errorf [.text "missing numeric value in byte size string ", .quoted s] [] [])
  return (trimmed.take i, toLower (trimSpace (trimmed.drop i)), dotIndex)

def resolveByteMultiplier (unitStr s : Bytes) : Except Err Nat :=
  if unitStr ∈ [[], lit "b", lit "byte", lit "bytes"] then .ok 1
  else if unitStr ∈ [lit "k", lit "kb", lit "kib"] then .ok 1024
  else if unitStr ∈ [lit "m", lit "mb", lit "mib"] then .ok (1024 ^ 2)
  else if unitStr ∈ [lit "g", lit "gb", lit "gib"] then .ok (1024 ^ 3)
  else if unitStr ∈ [lit "t", lit "tb", lit "tib"] then .ok (1024 ^ 4)
  else .error (.errorf [.text "unknown byte unit ", .quoted unitStr, .text " in ", .quoted s] [] [])

def exceedsMaxInt64 (s : Bytes) : Err :=
  .errorf [.text "byte size ", .quoted s, .text " exceeds max int64"] [] []

/-- The whole part, checked against the bound before every digit. -/
def scanWhole (s : Bytes) (maxWhole : Nat) : Nat → Bytes → Except Err Nat
  | whole, [] => .ok whole
  | whole, ch :: rest =>
    let d := ch.toNat - 48
    if maxWhole / 10 < whole || (whole = maxWhole / 10 && maxWhole % 10 < d) then .error (exceedsMaxInt64 s)
    else scanWhole s maxWhole (whole * 10 + d) rest

/-- The fraction from its last digit: the carry, the digit after it, and whether any
remainder was not zero. -/
def scanFraction (multiplier : Nat) : Bytes → Nat × Nat × Bool
  | [] => (0, 0, false)
  | ch :: rest =>
    let (fracCarry, _, hasNonzeroFrac) := scanFraction multiplier rest
    let v := (ch.toNat - 48) * multiplier + fracCarry
    (v / 10, v % 10, hasNonzeroFrac || v % 10 ≠ 0)

def parseByteSize (s : Bytes) : Except Err Int64 := do
  let (numStr, unitStr, dotIndex) ← splitByteSizeToken s
  let multiplier ← resolveByteMultiplier unitStr s
  let (wholeStr, fracStr) := match dotIndex with
    | none => (numStr, [])
    | some i => (numStr.take i, numStr.drop (i + 1))
  let maxInt64 := 2 ^ 63 - 1
  let whole ← scanWhole s (maxInt64 / multiplier) 0 wholeStr
  let wholeBytes := whole * multiplier
  let (fracCarry, firstFracDigit, hasNonzeroFrac) := scanFraction multiplier fracStr
  if maxInt64 - wholeBytes < fracCarry then throw (exceedsMaxInt64 s)
  let integralBytes := wholeBytes + fracCarry
  if integralBytes = maxInt64 && hasNonzeroFrac then throw (exceedsMaxInt64 s)
  let roundCarry := if 5 ≤ firstFracDigit then 1 else 0
  if 0 < roundCarry && maxInt64 ≤ integralBytes then throw (exceedsMaxInt64 s)
  let integralBytes := integralBytes + roundCarry
  if maxInt64 < integralBytes then throw (exceedsMaxInt64 s)
  return Int64.ofNat integralBytes

end

/-! ### Memory limits of the runtime -/

def memoryUnits : List (Bytes × Int) :=
  [(lit "B", 1), (lit "KiB", 1024), (lit "MiB", 1024 ^ 2), (lit "GiB", 1024 ^ 3), (lit "TiB", 1024 ^ 4)]

def unitOf (value : Bytes) : Option (Bytes × Int) :=
  memoryUnits.find? fun unit =>
    hasSuffix value unit.1 && (unit.1 ≠ lit "B" || !hasSuffix value (lit "iB"))

/-- The finite limit a `GOMEMLIMIT` value stands for, or zero. -/
def runtimeMemoryLimit (value : Bytes) : Int :=
  let (value, multiplier) := match unitOf value with
    | some (suffix, multiplier) => (trimSuffix value suffix, multiplier)
    | none => (value, 1)
  match parseInt value with
  | none => 0
  | some n =>
    if n ≤ 0 || maxInt64 / multiplier < n || n * multiplier = maxInt64 then 0 else n * multiplier

/-! ## Plans -/

section

variable [Float64]

def TuningPlan.resolveBatchGOGC (p : TuningPlan) (memoryLimit : Int) : TuningPlan :=
  if p.gcProfile ≠ .batchETL then p
  else if memoryLimit ≤ 0 || memoryLimit = maxInt64 then
    { p with
      gogc := 0, gogcStr := [], gogcApplied := false
      gogcSkippedReason := lit "batch_etl GOGC tuning skipped (no finite effective memory ceiling)" }
  else { p with gogc := -1, gogcStr := lit "off", gogcApplied := true, gogcSkippedReason := [] }

def TuningPlan.applyCPUPolicy (p : TuningPlan) (policy : CPUPolicy) : TuningPlan :=
  if policy = .native then { p with gomaxprocs := 0, gomaxprocsStr := [] } else p

def resolveTuningRatio (envRatioStr : Bytes) (defaultRatio : Float64.F) (profile : GCProfile) : Float64.F :=
  let ratio :=
    if profile = .memoryConstrained && Float64.equal defaultRatio Float64.defaultMemoryRatio then
      Float64.defaultMemoryConstrainedRatio
    else defaultRatio
  let ratio := if inUnit ratio then ratio else Float64.defaultMemoryRatio
  let trimmed := trimSpace envRatioStr
  if trimmed = [] then ratio
  else match Float64.parse trimmed with
    | some parsed => if inUnit parsed then parsed else ratio
    | none => ratio

def TuningPlan.setGOGC (p : TuningPlan) (gogc : Int) : TuningPlan :=
  { p with gogc := gogc, gogcStr := decimalInt gogc, gogcApplied := true }

def applyProfileGOGC (plan : TuningPlan) (profile : GCProfile) (liveHeapEstimateBytes : Int64) : TuningPlan :=
  match profile with
  | .latencyCritical => plan.setGOGC 75
  | .memoryConstrained => plan.setGOGC 40
  | .batchETL => plan.resolveBatchGOGC plan.gomemlimitBytes.toInt
  | .adaptive =>
    if 0 < liveHeapEstimateBytes.toInt && 0 < plan.gomemlimitBytes.toInt then
      match calculateAdaptiveGOGC plan.gomemlimitBytes liveHeapEstimateBytes with
      | some gogc => plan.setGOGC gogc
      | none => plan
    else plan
  | .default => plan
  | .other _ => plan

/-- The zero value of a plan. -/
def TuningPlan.zero : TuningPlan :=
  ⟨0, [], [], 0, [], Float64.ofInt 0, 0, [], .other [], false, []⟩

/-- The memory part of a plan, for the ceiling `effectiveLimit` before the deduction. -/
def TuningPlan.planMemory (plan : TuningPlan) (limits : Resources) (ratio : Float64.F) (minHeadroomBytes : Int64) :
    TuningPlan :=
  let (effectiveLimit, finite) := limits.effectiveMemoryLimit
  let plan :=
    if finite && effectiveLimit.toInt = 0 then
      { plan with gomemlimitStr := lit "0B", constrainingLimit := limits.constrainingMemoryLimit }
    else plan
  let effectiveLimit := retainedMemoryLimit effectiveLimit limits.retainedExecutableBytes
  if 0 < effectiveLimit.toInt then
    match calculateGOMEMLIMIT effectiveLimit ratio minHeadroomBytes with
    | some memLimit =>
      { plan with
        gomemlimitBytes := memLimit
        gomemlimitStr := decimalInt memLimit.toInt ++ lit "B"
        constrainingLimit :=
          if limits.constrainingMemoryLimit = limitConstraintNone then limitConstraintMax
          else limits.constrainingMemoryLimit }
    | none => plan
  else plan

def TuningPlan.planCPUs (plan : TuningPlan) (limits : Resources) : TuningPlan :=
  if 0 < limits.cpus then { plan with gomaxprocs := limits.cpus, gomaxprocsStr := decimalInt limits.cpus }
  else if Float64.less (Float64.ofInt 0) limits.cpuQuota then
    match calculateGOMAXPROCS limits.cpuQuota with
    | some cpus => { plan with gomaxprocs := cpus, gomaxprocsStr := decimalInt cpus }
    | none => plan
  else plan

def resolveTuningPlanWithProfile (limits : Resources) (envRatioStr : Bytes) (defaultRatio : Float64.F)
    (minHeadroomBytes : Int64) (profile : GCProfile) (liveHeapEstimateBytes : Int64) : TuningPlan :=
  let ratio := resolveTuningRatio envRatioStr defaultRatio profile
  let minHeadroomBytes := if minHeadroomBytes.toInt ≤ 0 then defaultMinHeadroomBytes else minHeadroomBytes
  let plan := { TuningPlan.zero with appliedRatio := ratio, gcProfile := profile }
  applyProfileGOGC ((plan.planMemory limits ratio minHeadroomBytes).planCPUs limits) profile liveHeapEstimateBytes

end

/-! ## Memory limits -/

variable {limit : Int64} {finite : Bool} {headroom : Int64}

theorem toInt_threshold : unlimitedCgroupV1MemoryThreshold.toInt = 2 ^ 50 := by decide

theorem minInt64_toInt (a b : Int64) : (minInt64 a b).toInt = min a.toInt b.toInt := by
  rw [minInt64]
  split <;> omega

theorem effectiveMemoryLimit_nonneg {l : Limits} (effective : l.effectiveMemoryLimit = (limit, finite)) :
    0 ≤ limit.toInt := by
  rw [Limits.effectiveMemoryLimit] at effective
  split at effective
  · obtain ⟨rfl, -⟩ := Prod.mk.inj effective
    decide
  · split at effective
    · rename_i positive
      obtain ⟨rfl, -⟩ := Prod.mk.inj effective
      omega
    · obtain ⟨rfl, -⟩ := Prod.mk.inj effective
      rw [calculateEffectiveMemoryLimit]
      simp only [Bool.and_eq_true, decide_eq_true_eq]
      split_ifs <;> first | omega | decide

theorem retainedMemoryLimit_toInt {retained : Int64} (nonneg : 0 ≤ limit.toInt)
    (kept : 0 ≤ retained.toInt) :
    (retainedMemoryLimit limit retained).toInt = max 0 (limit.toInt - retained.toInt) := by
  rw [retainedMemoryLimit]
  have small := limit.toInt_lt
  split
  · rename_i exhausted
    simp only [Bool.or_eq_true, decide_eq_true_eq] at exhausted
    simp only [Int64.toInt_zero]
    omega
  · rename_i room
    simp only [Bool.or_eq_true, decide_eq_true_eq] at room
    rw [Int64.toInt_sub, Int.bmod_eq_of_le] <;> omega

/-- What the capped headroom leaves. -/
theorem headroomBudget_toInt (positive : 0 < limit.toInt) (small : limit.toInt < 2 ^ 50)
    (reserve : 0 < headroom.toInt) :
    (limit - minInt64 headroom (limit - limit / 2)).toInt = max (limit.toInt / 2) (limit.toInt - headroom.toInt) := by
  have half : (limit / 2).toInt = limit.toInt / 2 := by
    rw [Int64.toInt_div, Int.tdiv_eq_ediv_of_nonneg (by omega), show (2 : Int64).toInt = 2 from rfl,
      Int.bmod_eq_of_le] <;> omega
  have rest : (limit - limit / 2).toInt = limit.toInt - limit.toInt / 2 := by
    rw [Int64.toInt_sub, half, Int.bmod_eq_of_le] <;> omega
  have reserved := minInt64_toInt headroom (limit - limit / 2)
  rw [Int64.toInt_sub, reserved, rest, Int.bmod_eq_of_le] <;> omega

section

variable [Float64]

/-- The ratio a budget is computed with. -/
def usedRatio (ratio : Float64.F) : Float64.F := if inUnit ratio then ratio else Float64.defaultMemoryRatio

def usedHeadroom (headroom : Int64) : Int64 := if headroom.toInt ≤ 0 then defaultMinHeadroomBytes else headroom

omit [Float64] in
theorem usedHeadroom_positive (headroom : Int64) : 0 < (usedHeadroom headroom).toInt := by
  rw [usedHeadroom]
  split
  · decide
  · omega

variable {ratio : Float64.F}

/-- **A budget exists for two bytes and more whose ratio product is positive.** -/
theorem calculateGOMEMLIMIT_iff {budget : Int64} :
    calculateGOMEMLIMIT limit ratio headroom = some budget ↔
      2 ≤ limit.toInt ∧ limit.toInt < 2 ^ 50 ∧ 0 < (Float64.floorMul limit (usedRatio ratio)).toInt ∧
        budget.toInt = min (Float64.floorMul limit (usedRatio ratio)).toInt
          (max (limit.toInt / 2) (limit.toInt - (usedHeadroom headroom).toInt)) := by
  rw [calculateGOMEMLIMIT, toInt_threshold]
  by_cases range : 0 < limit.toInt ∧ limit.toInt < 2 ^ 50
  · have reserve := usedHeadroom_positive headroom
    have left := headroomBudget_toInt range.1 range.2 reserve
    have least := minInt64_toInt (Float64.floorMul limit (usedRatio ratio))
      (limit - minInt64 (usedHeadroom headroom) (limit - limit / 2))
    rw [left] at least
    have inside : ¬ ((decide (limit.toInt ≤ 0) || decide ((2 : Int) ^ 50 ≤ limit.toInt)) = true) := by
      simp only [Bool.or_eq_true, decide_eq_true_eq]
      omega
    rw [if_neg inside]
    dsimp only
    change (if (minInt64 (Float64.floorMul limit (usedRatio ratio))
      (limit - minInt64 (usedHeadroom headroom) (limit - limit / 2))).toInt ≤ 0 then none else
      some (minInt64 (Float64.floorMul limit (usedRatio ratio))
        (limit - minInt64 (usedHeadroom headroom) (limit - limit / 2)))) = some budget ↔ _
    split
    · rename_i exhausted
      constructor
      · rintro ⟨⟩
      · rintro ⟨two, -, product, -⟩
        omega
    · rename_i budgeted
      rw [Option.some.injEq, ← Int64.toInt_inj]
      constructor
      · rintro same
        exact ⟨by omega, range.2, by omega, by omega⟩
      · rintro ⟨-, -, -, same⟩
        omega
  · have outside : (decide (limit.toInt ≤ 0) || decide ((2 : Int) ^ 50 ≤ limit.toInt)) = true := by
      simp only [Bool.or_eq_true, decide_eq_true_eq]
      omega
    rw [if_pos outside]
    constructor
    · rintro ⟨⟩
    · rintro ⟨two, small, -⟩
      exact absurd ⟨by omega, small⟩ range

theorem calculateGOMEMLIMIT_some (two : 2 ≤ limit.toInt) (small : limit.toInt < 2 ^ 50)
    (product : 0 < (Float64.floorMul limit (usedRatio ratio)).toInt) :
    ∃ budget, calculateGOMEMLIMIT limit ratio headroom = some budget := by
  refine ⟨minInt64 (Float64.floorMul limit (usedRatio ratio))
    (limit - minInt64 (usedHeadroom headroom) (limit - limit / 2)), calculateGOMEMLIMIT_iff.mpr ⟨two, small, product, ?_⟩⟩
  rw [minInt64_toInt, headroomBudget_toInt (by omega) small (usedHeadroom_positive headroom)]

/-- What the memory part of a plan can be: a budget, nothing, or the zero boundary. -/
inductive MemoryPlanned (limits : Resources) (limit : Int64) (finite : Bool) (ratio : Float64.F) (headroom : Int64)
    (plan : TuningPlan) : Prop
  | budget (budget : Int64) :
      calculateGOMEMLIMIT (retainedMemoryLimit limit limits.retainedExecutableBytes) ratio headroom = some budget →
      plan.gomemlimitBytes = budget → plan.gomemlimitStr = decimalInt budget.toInt ++ lit "B" →
      MemoryPlanned limits limit finite ratio headroom plan
  | none :
      calculateGOMEMLIMIT (retainedMemoryLimit limit limits.retainedExecutableBytes) ratio headroom = none →
      plan.gomemlimitBytes = 0 → plan.gomemlimitStr = (if finite && limit.toInt = 0 then lit "0B" else []) →
      MemoryPlanned limits limit finite ratio headroom plan

theorem planMemory_planned {limits : Resources} {plan : TuningPlan}
    (unset : plan.gomemlimitBytes = 0 ∧ plan.gomemlimitStr = [])
    (effective : limits.effectiveMemoryLimit = (limit, finite)) :
    MemoryPlanned limits limit finite ratio headroom (plan.planMemory limits ratio headroom) := by
  rw [TuningPlan.planMemory, effective]
  dsimp only
  cases budgeted : calculateGOMEMLIMIT (retainedMemoryLimit limit limits.retainedExecutableBytes) ratio headroom with
  | some budget =>
    have positive := (calculateGOMEMLIMIT_iff.mp budgeted).1
    rw [if_pos (by omega)]
    exact .budget budget budgeted rfl rfl
  | none =>
    dsimp only
    rw [ite_self]
    split
    · rename_i zero
      exact .none budgeted unset.1 (if_pos zero).symm
    · rename_i other
      exact .none budgeted unset.1 (unset.2.trans (if_neg other).symm)

/-- The fields of a plan the processor and collector settings leave alone. -/
structure SameMemory (p q : TuningPlan) : Prop where
  gomemlimitBytes : q.gomemlimitBytes = p.gomemlimitBytes
  gomemlimitStr : q.gomemlimitStr = p.gomemlimitStr
  gcProfile : q.gcProfile = p.gcProfile

theorem MemoryPlanned.same {limits : Resources} {p q : TuningPlan}
    (h : MemoryPlanned limits limit finite ratio headroom p) (kept : SameMemory p q) :
    MemoryPlanned limits limit finite ratio headroom q := by
  cases h with
  | budget budget budgeted bytes text =>
    exact .budget budget budgeted (kept.gomemlimitBytes.trans bytes) (kept.gomemlimitStr.trans text)
  | none unbudgeted bytes text =>
    exact .none unbudgeted (kept.gomemlimitBytes.trans bytes) (kept.gomemlimitStr.trans text)

section

variable (plan : TuningPlan)

theorem planCPUs_memory (limits : Resources) : SameMemory plan (plan.planCPUs limits) := by
  rw [TuningPlan.planCPUs]
  split
  · exact ⟨rfl, rfl, rfl⟩
  · split
    · split <;> exact ⟨rfl, rfl, rfl⟩
    · exact ⟨rfl, rfl, rfl⟩

theorem resolveBatchGOGC_memory (memoryLimit : Int) :
    SameMemory plan (plan.resolveBatchGOGC memoryLimit) := by
  rw [TuningPlan.resolveBatchGOGC]
  split
  · exact ⟨rfl, rfl, rfl⟩
  · split <;> exact ⟨rfl, rfl, rfl⟩

theorem applyCPUPolicy_memory (policy : CPUPolicy) : SameMemory plan (plan.applyCPUPolicy policy) := by
  rw [TuningPlan.applyCPUPolicy]
  split <;> exact ⟨rfl, rfl, rfl⟩

theorem applyCPUPolicy_gogc (policy : CPUPolicy) :
    (plan.applyCPUPolicy policy).gogc = plan.gogc ∧ (plan.applyCPUPolicy policy).gogcStr = plan.gogcStr := by
  rw [TuningPlan.applyCPUPolicy]
  split <;> exact ⟨rfl, rfl⟩

theorem applyProfileGOGC_memory (profile : GCProfile) (liveHeap : Int64) :
    SameMemory plan (applyProfileGOGC plan profile liveHeap) := by
  cases profile with
  | batchETL => exact resolveBatchGOGC_memory plan _
  | adaptive =>
    rw [applyProfileGOGC]
    split
    · split <;> exact ⟨rfl, rfl, rfl⟩
    · exact ⟨rfl, rfl, rfl⟩
  | default | latencyCritical | memoryConstrained | other => exact ⟨rfl, rfl, rfl⟩

theorem planMemory_gogc (limits : Resources) (ratio : Float64.F) (headroom : Int64) :
    (plan.planMemory limits ratio headroom).gogc = plan.gogc ∧
      (plan.planMemory limits ratio headroom).gogcStr = plan.gogcStr ∧
      (plan.planMemory limits ratio headroom).gcProfile = plan.gcProfile := by
  rw [TuningPlan.planMemory]
  dsimp only
  split_ifs <;> first | exact ⟨rfl, rfl, rfl⟩ | (split <;> exact ⟨rfl, rfl, rfl⟩)

theorem planCPUs_gogc (limits : Resources) :
    (plan.planCPUs limits).gogc = plan.gogc ∧ (plan.planCPUs limits).gogcStr = plan.gogcStr := by
  rw [TuningPlan.planCPUs]
  split_ifs <;> first | exact ⟨rfl, rfl⟩ | (split <;> exact ⟨rfl, rfl⟩)

end

/-- The plan of a reading, before its collector settings. -/
def memoryPlan (limits : Resources) (envRatioStr : Bytes) (defaultRatio : Float64.F) (minHeadroomBytes : Int64)
    (profile : GCProfile) : TuningPlan :=
  ((({ TuningPlan.zero with
      appliedRatio := resolveTuningRatio envRatioStr defaultRatio profile, gcProfile := profile } :
    TuningPlan).planMemory limits (resolveTuningRatio envRatioStr defaultRatio profile)
      (usedHeadroom minHeadroomBytes)).planCPUs limits)

variable {limits : Resources} {envRatioStr : Bytes} {defaultRatio : Float64.F} {minHeadroomBytes : Int64}
  {profile : GCProfile} {liveHeap : Int64}

theorem resolveTuningPlanWithProfile_eq :
    resolveTuningPlanWithProfile limits envRatioStr defaultRatio minHeadroomBytes profile liveHeap =
      applyProfileGOGC (memoryPlan limits envRatioStr defaultRatio minHeadroomBytes profile) profile liveHeap := rfl

theorem memoryPlan_gogc :
    (memoryPlan limits envRatioStr defaultRatio minHeadroomBytes profile).gogc = 0 ∧
      (memoryPlan limits envRatioStr defaultRatio minHeadroomBytes profile).gogcStr = [] ∧
      (memoryPlan limits envRatioStr defaultRatio minHeadroomBytes profile).gcProfile = profile := by
  have memory := planMemory_gogc ({ TuningPlan.zero with
      appliedRatio := resolveTuningRatio envRatioStr defaultRatio profile, gcProfile := profile } : TuningPlan)
    limits (resolveTuningRatio envRatioStr defaultRatio profile) (usedHeadroom minHeadroomBytes)
  rw [memoryPlan, (planCPUs_gogc _ _).1, (planCPUs_gogc _ _).2, (planCPUs_memory _ _).gcProfile]
  exact memory

variable {plan : TuningPlan}
  (planned : plan = resolveTuningPlanWithProfile limits envRatioStr defaultRatio minHeadroomBytes profile liveHeap)

include planned

theorem plan_memory :
    SameMemory (memoryPlan limits envRatioStr defaultRatio minHeadroomBytes profile) plan := by
  rw [planned, resolveTuningPlanWithProfile_eq]
  exact applyProfileGOGC_memory _ profile liveHeap

theorem plan_planned (effective : limits.effectiveMemoryLimit = (limit, finite)) :
    MemoryPlanned limits limit finite (resolveTuningRatio envRatioStr defaultRatio profile)
      (usedHeadroom minHeadroomBytes) plan :=
  ((planMemory_planned ⟨rfl, rfl⟩ effective).same (planCPUs_memory _ limits)).same (plan_memory planned)

theorem plan_profile : plan.gcProfile = profile := by
  rw [(plan_memory planned).gcProfile]
  exact memoryPlan_gogc.2.2

/-- A planned limit is a number of bytes with its unit. -/
theorem plan_limit (positive : 0 < plan.gomemlimitBytes.toInt) :
    plan.gomemlimitBytes.toInt < 2 ^ 50 ∧
      plan.gomemlimitStr = decimalInt plan.gomemlimitBytes.toInt ++ lit "B" := by
  rcases plan_planned planned rfl with ⟨budget, budgeted, bytes, text⟩ | ⟨-, bytes, -⟩
  · rw [bytes] at positive ⊢
    obtain ⟨two, small, product, exact⟩ := calculateGOMEMLIMIT_iff.mp budgeted
    have reserve := usedHeadroom_positive (usedHeadroom minHeadroomBytes)
    exact ⟨by omega, text⟩
  · rw [bytes] at positive
    exact absurd positive (by decide)

omit planned

omit [Float64] in
theorem decimalInt_nonneg {v : Int} (nonneg : 0 ≤ v) : decimalInt v = decimal v.toNat := by
  rw [decimalInt, if_neg (by omega)]
  congr 1
  omega

include planned

/-- **When a finite ceiling becomes a memory limit.**  The zero boundary does, and so
does what the retained executable leaves of a ceiling when it is two bytes or more with
a positive ratio product; a limit is never more than is left. -/
theorem plan_of_finite_ceiling {limit : Int64} (finite : limits.effectiveMemoryLimit = (limit, true))
    (below : limit.toInt < unlimitedCgroupV1MemoryThreshold.toInt)
    (kept : 0 ≤ limits.retainedExecutableBytes.toInt) :
    (plan.gomemlimitStr ≠ [] ↔ limit.toInt = 0 ∨
      2 ≤ limit.toInt - limits.retainedExecutableBytes.toInt ∧
        0 < (Float64.floorMul (limit - limits.retainedExecutableBytes)
          (usedRatio (resolveTuningRatio envRatioStr defaultRatio profile))).toInt) ∧
    (plan.gomemlimitStr ≠ [] → ∃ n : Nat, plan.gomemlimitStr = decimal n ++ lit "B" ∧
      (n : Int) ≤ max 0 (limit.toInt - limits.retainedExecutableBytes.toInt)) := by
  have nonneg := effectiveMemoryLimit_nonneg finite
  have left := retainedMemoryLimit_toInt nonneg kept
  rw [toInt_threshold] at below
  -- what is left, when anything is
  have difference : 2 ≤ limit.toInt - limits.retainedExecutableBytes.toInt →
      retainedMemoryLimit limit limits.retainedExecutableBytes = limit - limits.retainedExecutableBytes := fun two => by
    rw [retainedMemoryLimit, if_neg]
    simp only [Bool.or_eq_true, decide_eq_true_eq]
    omega
  rcases plan_planned planned finite with ⟨budget, budgeted, -, text⟩ | ⟨unbudgeted, -, text⟩
  · obtain ⟨two, -, product, exact⟩ := calculateGOMEMLIMIT_iff.mp budgeted
    have left' := difference (by omega)
    have reserve := usedHeadroom_positive (usedHeadroom minHeadroomBytes)
    rw [text]
    refine ⟨⟨fun _ => .inr ⟨by omega, left' ▸ product⟩, fun _ => by simp [lit]⟩, fun _ => ⟨budget.toInt.toNat, ?_, ?_⟩⟩
    · rw [decimalInt_nonneg (by omega)]
    · omega
  · rw [text]
    by_cases zero : limit.toInt = 0
    · rw [if_pos (by simp [zero])]
      exact ⟨⟨fun _ => .inl zero, fun _ => by decide⟩, fun _ => ⟨0, by decide, by omega⟩⟩
    · rw [if_neg (by simp [zero])]
      refine ⟨⟨fun set => absurd rfl set, ?_⟩, fun set => absurd rfl set⟩
      rintro (none | ⟨two, product⟩)
      · exact absurd none zero
      · rw [← difference two] at product
        obtain ⟨budget, budgeted⟩ := calculateGOMEMLIMIT_some (by omega) (by omega) product
        rw [unbudgeted] at budgeted
        cases budgeted

/-! ## Turning collection off -/

variable {p : TuningPlan}

omit planned

theorem resolveBatchGOGC_negative {memoryLimit : Int} (batch : p.gcProfile = .batchETL)
    (negative : (p.resolveBatchGOGC memoryLimit).gogc < 0) :
    0 < memoryLimit ∧ memoryLimit ≠ maxInt64 := by
  rw [TuningPlan.resolveBatchGOGC, if_neg (not_not.mpr batch)] at negative
  split at negative
  · cases negative
  · rename_i finite
    simpa using finite

/-- The clamped percentage is positive. -/
theorem calculateAdaptiveGOGC_nonneg [LawfulFloat64] {available live : Int64} {percent : Int}
    (adaptive : calculateAdaptiveGOGC available live = some percent) : 0 ≤ percent := by
  rw [calculateAdaptiveGOGC] at adaptive
  split at adaptive
  · cases adaptive
  · rename_i positive
    simp only [Bool.or_eq_true, decide_eq_true_eq, not_or, Int.not_le] at positive
    dsimp only at adaptive
    rw [Option.some.injEq] at adaptive
    have ten := LawfulFloat64.round_ofInt 10 (by decide) (by decide)
    have hundred := LawfulFloat64.round_ofInt 100 (by decide) (by decide)
    by_cases high : Float64.less (Float64.ofInt 100) (if Float64.less (Float64.scaledHeadroom available live)
        (Float64.ofInt 10) = true then Float64.ofInt 10 else Float64.scaledHeadroom available live) = true
    · rw [if_pos high, hundred] at adaptive
      omega
    · rw [if_neg high] at adaptive
      split at adaptive
      · omega
      · rename_i notLow
        rw [if_neg notLow] at high
        have bounded := LawfulFloat64.round_scaled available live positive.1 positive.2
          (by simpa using notLow) (by simpa using high)
        omega

theorem resolveBatchGOGC_off {memoryLimit : Int}
    (off : (p.resolveBatchGOGC memoryLimit).gogcStr = lit "off") :
    p.gcProfile = .batchETL ∧ 0 < memoryLimit ∧ memoryLimit ≠ maxInt64 ∨
      p.gcProfile ≠ .batchETL ∧ p.gogcStr = lit "off" := by
  rw [TuningPlan.resolveBatchGOGC] at off
  split at off
  · rename_i different
    exact .inr ⟨different, off⟩
  · rename_i batch
    split at off
    · exact absurd (show ([] : Bytes) = lit "off" from off) (by decide)
    · rename_i finite
      simp only [Bool.or_eq_true, decide_eq_true_eq, not_or, Int.not_le] at finite
      exact .inl ⟨not_not.mp batch, finite⟩

omit [Float64] in
theorem decimalInt_ne_off (v : Int) : decimalInt v ≠ lit "off" := by
  intro same
  have first : (111 : UInt8) ∈ decimalInt v := by
    rw [same]
    decide
  rw [decimalInt] at first
  have noDigit : (111 : UInt8) ∉ decimal v.natAbs := fun mem => absurd (decimal_digits _ _ mem) (by decide)
  split at first
  · exact (List.mem_cons.mp first).elim (by decide) noDigit
  · exact noDigit first

/-- The collector settings of a profile that say `off` come with a memory limit. -/
theorem applyProfileGOGC_off (unset : p.gogcStr = []) (same : p.gcProfile = profile)
    (off : (applyProfileGOGC p profile liveHeap).gogcStr = lit "off") :
    profile = .batchETL ∧ 0 < p.gomemlimitBytes.toInt := by
  have never : p.gogcStr ≠ lit "off" := by
    rw [unset]
    decide
  cases profile with
  | batchETL =>
    rcases resolveBatchGOGC_off off with ⟨-, positive, -⟩ | ⟨different, -⟩
    · exact ⟨rfl, positive⟩
    · exact absurd same different
  | adaptive =>
    rw [applyProfileGOGC] at off
    split at off
    · split at off
      · exact absurd off (decimalInt_ne_off _)
      · exact absurd off never
    · exact absurd off never
  | latencyCritical => exact absurd off (decimalInt_ne_off 75)
  | memoryConstrained => exact absurd off (decimalInt_ne_off 40)
  | default | other => exact absurd off never

include planned

theorem plan_gogc : plan.gogc =
    (applyProfileGOGC (memoryPlan limits envRatioStr defaultRatio minHeadroomBytes profile) profile liveHeap).gogc := by
  rw [planned, resolveTuningPlanWithProfile_eq]

/-- Only the batch profile turns collection off. -/
theorem plan_gogc_nonneg [LawfulFloat64] (other : profile ≠ .batchETL) : 0 ≤ plan.gogc := by
  rw [plan_gogc planned]
  have unset : (memoryPlan limits envRatioStr defaultRatio minHeadroomBytes profile).gogc = 0 := memoryPlan_gogc.1
  cases profile with
  | batchETL => exact absurd rfl other
  | adaptive =>
    rw [applyProfileGOGC]
    split
    · split
      · rename_i percent adaptive
        exact calculateAdaptiveGOGC_nonneg adaptive
      · exact unset.ge
    · exact unset.ge
  | latencyCritical => exact (by decide : (0 : Int) ≤ 75)
  | memoryConstrained => exact (by decide : (0 : Int) ≤ 40)
  | default | other => exact unset.ge

theorem plan_off (off : plan.gogcStr = lit "off") : profile = .batchETL ∧ 0 < plan.gomemlimitBytes.toInt := by
  rw [(plan_memory planned).gomemlimitBytes]
  rw [planned, resolveTuningPlanWithProfile_eq] at off
  exact applyProfileGOGC_off memoryPlan_gogc.2.1 memoryPlan_gogc.2.2 off

omit planned

omit [Float64] in
/-- A planned limit reads back as the number it is. -/
theorem runtimeMemoryLimit_bytes {v : Int} (positive : 0 < v) (small : v < maxInt64) :
    runtimeMemoryLimit (decimalInt v ++ lit "B") = v := by
  rw [maxInt64] at small
  have nonneg := decimalInt_nonneg positive.le
  have unit : unitOf (decimalInt v ++ lit "B") = some (lit "B", 1) := by
    have notBinary : hasSuffix (decimalInt v ++ lit "B") (lit "iB") = false := by
      rw [← Bool.not_eq_true]
      intro suffix
      obtain ⟨front, same⟩ := List.isSuffixOf_iff_suffix.mp suffix
      have letter : front ++ [105] = decimalInt v := by
        refine (List.append_left_inj (lit "B")).mp ?_
        rw [← same, List.append_assoc]
        rfl
      have digit := decimal_digits v.toNat 105 (by rw [← nonneg, ← letter]; simp)
      exact absurd digit (by decide)
    rw [unitOf, memoryUnits, List.find?_cons_of_pos]
    simp [notBinary]
  have parsed : parseInt (decimalInt v) = some v := by
    rw [nonneg, parseInt_decimal (by omega), Int.toNat_of_nonneg positive.le]
  rw [runtimeMemoryLimit, unit]
  dsimp only
  rw [trimSuffix_append, parsed]
  dsimp only
  rw [if_neg, Int.mul_one]
  simp [maxInt64]
  omega

/-- **What a plan says about memory, the runtime reads**: the text denotes the number of bytes,
also without a limit and at the zero boundary. -/
theorem plan_reads_back :
    runtimeMemoryLimit (resolveTuningPlanWithProfile limits envRatioStr defaultRatio minHeadroomBytes profile
        liveHeap).gomemlimitStr =
      (resolveTuningPlanWithProfile limits envRatioStr defaultRatio minHeadroomBytes profile
        liveHeap).gomemlimitBytes.toInt := by
  generalize resolved : resolveTuningPlanWithProfile _ _ _ _ _ _ = plan
  rcases plan_planned resolved.symm rfl with ⟨budget, budgeted, bytes, text⟩ | ⟨-, bytes, text⟩
  · obtain ⟨two, small, product, exact⟩ := calculateGOMEMLIMIT_iff.mp budgeted
    have reserve := usedHeadroom_positive (usedHeadroom minHeadroomBytes)
    rw [bytes, text, runtimeMemoryLimit_bytes (by omega) (by rw [maxInt64]; omega)]
  · rw [bytes, text, apply_ite runtimeMemoryLimit]
    exact ite_self _

end

section

/-- Exact fractions in the place of `float64`. -/
@[reducible] def fractions : Float64 where
  F := ℚ
  ofInt n := n
  less a b := a < b
  equal a b := a = b
  finite _ := true
  defaultMemoryRatio := 9 / 10
  defaultMemoryConstrainedRatio := 8 / 10
  parse _ := none
  floorMul n r := Int64.ofInt ⌊n.toInt * r⌋
  floor q := ⌊q⌋
  scaledHeadroom a l := ((a.toInt : ℚ) / l.toInt - 1) * 100
  round x := ⌊x + 1 / 2⌋
  format _ := []

local instance tuningFloats : Float64 := fractions

theorem fractions_lawful : @LawfulFloat64 fractions where
  round_ofInt n _ _ := by
    show ⌊(n : ℚ) + 1 / 2⌋ = n
    rw [Int.floor_eq_iff]
    constructor <;> norm_num
  round_scaled a l _ _ high _ := by
    have bound : (10 : ℚ) ≤ ((a.toInt : ℚ) / l.toInt - 1) * 100 := by
      have least := of_decide_eq_false high
      exact not_lt.mp least
    show 10 ≤ ⌊((a.toInt : ℚ) / l.toInt - 1) * 100 + 1 / 2⌋
    rw [Int.le_floor]
    push_cast
    linarith

/-- A hard ceiling of `limit` bytes of which `retained` hold the executable. -/
def ceilingOf (limit retained : Int64) : Resources := ⟨⟨2, limit, 0, limit, true, false⟩, retained, (0 : ℚ), 0⟩

theorem plan_of_finite_ceiling_gibi :
    (resolveTuningPlanWithProfile (ceilingOf (1024 ^ 3) 4096) [] (9 / 10 : ℚ) 0 .default 0).gomemlimitStr ≠ [] := by
  have planned := plan_of_finite_ceiling
    (rfl : resolveTuningPlanWithProfile (ceilingOf (1024 ^ 3) 4096) [] (9 / 10 : ℚ) 0 .default 0 = _)
    (rfl : (ceilingOf (1024 ^ 3) 4096).effectiveMemoryLimit = (1024 ^ 3, true)) (by decide) (by decide)
  exact planned.1.mpr (.inr ⟨by decide, by decide +kernel⟩)

/-- An executable that fills the ceiling leaves the heap without a limit. -/
theorem retained_ceiling_unlimited :
    (ceilingOf 100 100).effectiveMemoryLimit = (100, true) ∧
      (resolveTuningPlanWithProfile (ceilingOf 100 100) [] (9 / 10 : ℚ) 0 .default 0).gomemlimitStr = [] := by
  decide +kernel

end

end Microfat.Cgroup
