/-
# Microfat.Runtimeinit.AutoTune — tuning a running service

`AutoTune` is for services that start without a launcher: it reads the cgroup, makes
the same plan and sets the runtime up itself.  Settings in the environment win over
the plan, and what the runtime says about its memory limit wins over what the
environment says, because the environment can change after start-up.

The runtime is its memory limit and the calls made to it.  Logging is left out, and
so is the option that replaces the logger.

* `autoTune_collects`: collection is turned off only when a finite memory limit is in
  force at the end.
-/
import Microfat.Cgroup.Tuning

namespace Microfat.Runtimeinit

open Theory Theory.Json Cgroup

set_option autoImplicit false

/-! ## Options -/

section

variable [Float64]

structure Config where
  memoryRatio : Float64.F
  minHeadroomBytes : Int64
  cgroupRoot : Bytes
  profile : GCProfile
  liveHeapEstimateBytes : Int64
  explicitGOGC : Option Int
  dryRun : Bool
  cpuPolicy : CPUPolicy

def defaultConfig : Config where
  memoryRatio := Float64.defaultMemoryRatio
  minHeadroomBytes := defaultMinHeadroomBytes
  cgroupRoot := []
  profile := .default
  liveHeapEstimateBytes := 0
  explicitGOGC := none
  dryRun := false
  cpuPolicy := .static

/-- The options a caller can build. -/
inductive TuneOption where
  | withCPUPolicy (policy : Bytes)
  | withMemoryRatio (ratio : Float64.F)
  | withMinHeadroom (minHeadroomBytes : Int64)
  | withCgroupRoot (root : Bytes)
  | withProfile (p : GCProfile)
  | withLiveHeapEstimate (bytes : Int64)
  | withLiveHeapEstimateString (s : Bytes)
  | withGOGC (gogc : Int)
  | withDryRun (dryRun : Bool)

variable [CaseTable]

def TuneOption.apply (c : Config) : TuneOption → Config
  | withCPUPolicy policy => { c with cpuPolicy := resolveCPUPolicy policy .static }
  | withMemoryRatio ratio =>
    if Float64.less (Float64.ofInt 0) ratio && !Float64.less (Float64.ofInt 1) ratio then
      { c with memoryRatio := ratio }
    else c
  | withMinHeadroom minHeadroomBytes =>
    if 0 < minHeadroomBytes.toInt then { c with minHeadroomBytes := minHeadroomBytes } else c
  | withCgroupRoot root => { c with cgroupRoot := root }
  | withProfile p => if p.text ≠ [] then { c with profile := p } else c
  | withLiveHeapEstimate bytes => if 0 < bytes.toInt then { c with liveHeapEstimateBytes := bytes } else c
  | withLiveHeapEstimateString s =>
    match parseByteSize s with
    | .ok val => if 0 < val.toInt then { c with liveHeapEstimateBytes := val } else c
    | .error _ => c
  | withGOGC gogc => { c with explicitGOGC := some gogc }
  | withDryRun dryRun => { c with dryRun := dryRun }

end

/-! ## The runtime -/

/-- The memory limit in force, and the arguments of the calls that set the rest. -/
structure Runtime where
  memoryLimit : Int64
  gcPercents : List Int
  maxProcs : List Int

def Runtime.setMemoryLimit (rt : Runtime) (limit : Int64) : Runtime := { rt with memoryLimit := limit }
def Runtime.setGCPercent (rt : Runtime) (percent : Int) : Runtime := { rt with gcPercents := rt.gcPercents ++ [percent] }
def Runtime.setMaxProcs (rt : Runtime) (n : Int) : Runtime := { rt with maxProcs := rt.maxProcs ++ [n] }

/-- What the process reads. -/
structure Surroundings [Float64] where
  getenv : Bytes → Bytes
  readLimits : Resources × Option Err
  readLimitsFrom : Bytes → Resources × Option Err
  retainedExecutableMemory : Except Err Int64

structure Result [Float64] where
  cgroupVersion : Int
  memoryLimitBytes : Int64
  memoryHighBytes : Int64
  effectiveMemoryLimitBytes : Int64
  constrainingLimit : Bytes
  cpuQuota : Float64.F
  cpuPolicy : CPUPolicy
  gomemlimit : Int64
  gomaxprocs : Int
  gogc : Int
  profileApplied : Bytes
  memLimitApplied : Bool
  maxProcsApplied : Bool
  gogcApplied : Bool
  dryRun : Bool
  /-- The text, as an error; `none` is the empty one. -/
  skippedReason : Option Err

section

variable [Float64]

/-- A result with nothing applied. -/
def Result.untouched (limits : Resources) (cfg : Config) : Result where
  cgroupVersion := limits.cgroupVersion
  memoryLimitBytes := limits.memoryLimitBytes
  memoryHighBytes := limits.memoryHighBytes
  effectiveMemoryLimitBytes := limits.effectiveMemoryLimitBytes
  constrainingLimit := []
  cpuQuota := limits.cpuQuota
  cpuPolicy := cfg.cpuPolicy
  gomemlimit := 0
  gomaxprocs := 0
  gogc := 0
  profileApplied := []
  memLimitApplied := false
  maxProcsApplied := false
  gogcApplied := false
  dryRun := cfg.dryRun
  skippedReason := none

/-- The zero value of a reading. -/
def Resources.zero : Resources := ⟨⟨0, 0, 0, 0, false, false⟩, 0, Float64.ofInt 0, 0⟩

def Result.skipped (version : Int) (cfg : Config) (reason : Err) : Result :=
  { Result.untouched Resources.zero cfg with cgroupVersion := version, skippedReason := some reason }

def Result.orReason (res : Result) (reason : String) : Result :=
  match res.skippedReason with
  | none => { res with skippedReason := some (.new reason) }
  | some _ => res

/-! ## Tuning -/

def resolveGOGCPlan (s : Surroundings) (cfg : Config) (activeProfile : GCProfile) (rt : Runtime) (plan : TuningPlan) :
    TuningPlan :=
  let plan :=
    if activeProfile = .batchETL && cfg.explicitGOGC.isNone && s.getenv (lit "GOGC") = [] then
      let effectiveLimit :=
        if s.getenv (lit "GOMEMLIMIT") ≠ [] || plan.gomemlimitStr = [] then rt.memoryLimit
        else plan.gomemlimitBytes
      plan.resolveBatchGOGC effectiveLimit.toInt
    else plan
  match cfg.explicitGOGC with
  | some gogc =>
    { plan with
      gogc := gogc, gogcApplied := true, gogcStr := if gogc = -1 then lit "off" else decimalInt gogc }
  | none => plan

def adaptiveSkipped : String := "adaptive GOGC tuning skipped (missing live heap estimate)"

/-- `applyTuningPlan` of a dry run. -/
def describeTuningPlan (plan : TuningPlan) (activeProfile : GCProfile) (activeLiveHeap : Int64) (res : Result) : Result :=
  let res := if plan.gomemlimitStr ≠ [] then { res with gomemlimit := plan.gomemlimitBytes } else res
  let res := { res with memLimitApplied := false }
  let res := if 0 < plan.gomaxprocs then { res with gomaxprocs := plan.gomaxprocs } else res
  let res := { res with maxProcsApplied := false }
  let res :=
    if plan.gogcApplied then
      let res := { res with gogc := plan.gogc }
      if activeProfile ≠ .default then { res with profileApplied := activeProfile.text } else res
    else if activeProfile = .adaptive && activeLiveHeap.toInt ≤ 0 then
      { res with profileApplied := activeProfile.text }.orReason adaptiveSkipped
    else res
  let res := { res with gogcApplied := false }
  res.orReason "dry-run mode"

def configureMemory (s : Surroundings) (plan : TuningPlan) (rt : Runtime) (res : Result) : Runtime × Result :=
  if s.getenv (lit "GOMEMLIMIT") ≠ [] then (rt, { res with memLimitApplied := false })
  else if plan.gomemlimitStr ≠ [] then
    (rt.setMemoryLimit plan.gomemlimitBytes, { res with gomemlimit := plan.gomemlimitBytes, memLimitApplied := true })
  else (rt, res)

def configureProcs (s : Surroundings) (plan : TuningPlan) (rt : Runtime) (res : Result) : Runtime × Result :=
  if s.getenv (lit "GOMAXPROCS") ≠ [] then (rt, { res with maxProcsApplied := false })
  else if 0 < plan.gomaxprocs then
    (rt.setMaxProcs plan.gomaxprocs, { res with gomaxprocs := plan.gomaxprocs, maxProcsApplied := true })
  else (rt, res)

def configureGC (s : Surroundings) (plan : TuningPlan) (activeProfile : GCProfile) (activeLiveHeap : Int64)
    (rt : Runtime) (res : Result) : Runtime × Result :=
  if s.getenv (lit "GOGC") ≠ [] then (rt, { res with gogcApplied := false })
  else if plan.gogcApplied then
    let res := { res with gogc := plan.gogc, gogcApplied := true }
    (rt.setGCPercent plan.gogc,
      if activeProfile ≠ .default then { res with profileApplied := activeProfile.text } else res)
  else if activeProfile = .adaptive && activeLiveHeap.toInt ≤ 0 then
    (rt, { res with profileApplied := activeProfile.text, gogcApplied := false }.orReason adaptiveSkipped)
  else (rt, res)

def applyTuningPlan (s : Surroundings) (plan : TuningPlan) (activeProfile : GCProfile) (activeLiveHeap : Int64)
    (dryRun : Bool) (rt : Runtime) (res : Result) : Runtime × Result :=
  if dryRun then (rt, describeTuningPlan plan activeProfile activeLiveHeap res)
  else
    let (rt, res) := configureMemory s plan rt res
    let (rt, res) := configureProcs s plan rt res
    configureGC s plan activeProfile activeLiveHeap rt res

/-- The reading less what cannot be relied on: without a storage estimate there is no
new memory budget, except at the zero boundary. -/
def retainLimits (s : Surroundings) (limits : Resources) : Resources :=
  let (ceiling, finite) := limits.effectiveMemoryLimit
  match s.retainedExecutableMemory with
  | .error _ =>
    if !finite || ceiling.toInt ≠ 0 then
      { limits with
        memoryLimitBytes := 0, memoryHighBytes := 0, effectiveMemoryLimitBytes := 0
        memoryLimitFinite := false, memoryHighFinite := false }
    else limits
  | .ok retained => { limits with retainedExecutableBytes := retained }

variable [CaseTable]

def resolveProfileAndLiveHeap (s : Surroundings) (cfg : Config) : GCProfile × Int64 :=
  let envProfile := s.getenv (lit "MICROFAT_GC_PROFILE")
  let activeProfile :=
    if envProfile ≠ [] then
      match parseGCProfile envProfile with
      | (p, none) => p
      | (_, some _) => cfg.profile
    else cfg.profile
  let envHeap := s.getenv (lit "MICROFAT_LIVE_HEAP_ESTIMATE")
  let activeLiveHeap :=
    if envHeap ≠ [] then
      match parseByteSize envHeap with
      | .ok h => if 0 < h.toInt then h else cfg.liveHeapEstimateBytes
      | .error _ => cfg.liveHeapEstimateBytes
    else cfg.liveHeapEstimateBytes
  (activeProfile, activeLiveHeap)

/-- The configuration of a call; an option may be nil. -/
def configure (s : Surroundings) (opts : List (Option TuneOption)) : Config :=
  let dryRunEnv := trimSpace (s.getenv (lit "MICROFAT_DRY_RUN"))
  let cfg :=
    if dryRunEnv = lit "1" || equalFold dryRunEnv (lit "true") then { defaultConfig with dryRun := true }
    else defaultConfig
  let cfg := opts.foldl (fun cfg opt => match opt with
    | some opt => opt.apply cfg
    | none => cfg) cfg
  { cfg with cpuPolicy := resolveCPUPolicy (s.getenv (lit "MICROFAT_CPU_POLICY")) cfg.cpuPolicy }

def autoTune (s : Surroundings) (opts : List (Option TuneOption)) (rt : Runtime) : Runtime × Result :=
  let cfg := configure s opts
  let autoTuneEnv := trimSpace (s.getenv (lit "MICROFAT_AUTOTUNE"))
  if autoTuneEnv = lit "0" || equalFold autoTuneEnv (lit "false") then
    (rt, .skipped 0 cfg (.new "auto-tuning disabled by MICROFAT_AUTOTUNE"))
  else
    let (limits, err) := if cfg.cgroupRoot ≠ [] then s.readLimitsFrom cfg.cgroupRoot else s.readLimits
    match err with
    | some err => (rt, .skipped limits.cgroupVersion cfg (.errorf [.text "cgroup inspection failed: ", .shown] [] [err]))
    | none =>
      if limits.cgroupVersion = versionUnknown then
        (rt, .skipped limits.cgroupVersion cfg (.new "cgroup resource limits not detected"))
      else
        let res := Result.untouched limits cfg
        let limits := retainLimits s limits
        let (activeProfile, activeLiveHeap) := resolveProfileAndLiveHeap s cfg
        let plan := resolveTuningPlanWithProfile limits (s.getenv (lit "MICROFAT_MEM_RATIO")) cfg.memoryRatio
          cfg.minHeadroomBytes activeProfile activeLiveHeap
        let plan := plan.applyCPUPolicy cfg.cpuPolicy
        let res := { res with constrainingLimit := plan.constrainingLimit }
        let plan := resolveGOGCPlan s cfg activeProfile rt plan
        let res := { res with
          skippedReason :=
            if plan.gogcSkippedReason = [] then none else some (.errorf [.str plan.gogcSkippedReason] [] []) }
        applyTuningPlan s plan activeProfile activeLiveHeap cfg.dryRun rt res

/-! ## Turning collection off -/

theorem configure_explicitGOGC (s : Surroundings) {opts : List (Option TuneOption)}
    (plain : ∀ gogc, some (TuneOption.withGOGC gogc) ∉ opts) : (configure s opts).explicitGOGC = none := by
  -- no other option sets the field
  have step : ∀ (cfg : Config) (opt : TuneOption), (∀ gogc, opt ≠ .withGOGC gogc) → cfg.explicitGOGC = none →
      (opt.apply cfg).explicitGOGC = none := by
    intro cfg opt other unset
    cases opt with
    | withGOGC gogc => exact absurd rfl (other gogc)
    | withLiveHeapEstimateString s =>
      rw [TuneOption.apply]
      split
      · split <;> exact unset
      · exact unset
    | withCPUPolicy | withCgroupRoot | withDryRun => exact unset
    | withMemoryRatio | withMinHeadroom | withProfile | withLiveHeapEstimate =>
      rw [TuneOption.apply]
      split <;> exact unset
  rw [configure]
  dsimp only
  refine List.foldlRecOn (motive := fun cfg : Config => cfg.explicitGOGC = none) opts _ ?_ fun cfg unset opt mem => ?_
  · split <;> rfl
  · cases opt with
    | none => exact unset
    | some opt => exact step cfg opt (fun gogc same => plain gogc (same ▸ mem)) unset

section

omit [CaseTable]

variable {s : Surroundings} {plan : TuningPlan} {profile : GCProfile} {liveHeap limit : Int64} {rt : Runtime}
  {res : Result}

theorem configureMemory_runtime :
    (configureMemory s plan rt res).1 =
      { rt with memoryLimit :=
          if s.getenv (lit "GOMEMLIMIT") ≠ [] ∨ plan.gomemlimitStr = [] then rt.memoryLimit
          else plan.gomemlimitBytes } := by
  rw [configureMemory]
  by_cases inherited : s.getenv (lit "GOMEMLIMIT") = []
  · by_cases planned : plan.gomemlimitStr = []
    · simp [inherited, planned]
    · simp [inherited, planned, Runtime.setMemoryLimit]
  · simp [inherited]

theorem configureProcs_runtime :
    (configureProcs s plan rt res).1.memoryLimit = rt.memoryLimit ∧
      (configureProcs s plan rt res).1.gcPercents = rt.gcPercents := by
  rw [configureProcs]
  split
  · exact ⟨rfl, rfl⟩
  · split <;> exact ⟨rfl, rfl⟩

theorem configureGC_runtime :
    (configureGC s plan profile liveHeap rt res).1.memoryLimit = rt.memoryLimit ∧
      ∀ percent ∈ (configureGC s plan profile liveHeap rt res).1.gcPercents,
        percent ∈ rt.gcPercents ∨ s.getenv (lit "GOGC") = [] ∧ percent = plan.gogc := by
  rw [configureGC]
  split
  · exact ⟨rfl, fun _ => .inl⟩
  · rename_i free
    split
    · exact ⟨rfl, List.forall_mem_append.mpr
        ⟨fun _ => .inl, List.forall_mem_singleton.mpr (.inr ⟨not_not.mp free, rfl⟩)⟩⟩
    · split <;> exact ⟨rfl, fun _ => .inl⟩

/-- What applying a plan does to the runtime, as far as collection is concerned. -/
theorem applyTuningPlan_percent {dryRun : Bool} {percent : Int}
    (called : percent ∈ (applyTuningPlan s plan profile liveHeap dryRun ⟨limit, [], []⟩ res).1.gcPercents) :
    s.getenv (lit "GOGC") = [] ∧ percent = plan.gogc ∧
      (applyTuningPlan s plan profile liveHeap dryRun ⟨limit, [], []⟩ res).1.memoryLimit =
        if s.getenv (lit "GOMEMLIMIT") ≠ [] ∨ plan.gomemlimitStr = [] then limit else plan.gomemlimitBytes := by
  rw [applyTuningPlan] at called ⊢
  split at called
  · cases called
  · rename_i wet
    rw [if_neg wet]
    dsimp only at called ⊢
    rw [configureGC_runtime.1, configureProcs_runtime.1, configureMemory_runtime]
    rcases configureGC_runtime.2 percent called with old | ⟨free, same⟩
    · rw [configureProcs_runtime.2, configureMemory_runtime] at old
      cases old
    · exact ⟨free, same, rfl⟩

/-- A plan that ends with collection off was resolved for the limit that will be in force. -/
theorem resolveGOGCPlan_negative [LawfulFloat64] {cfg : Config} {limits : Resources} {ratio : Bytes}
    {policy : CPUPolicy} (unset : cfg.explicitGOGC = none) (free : s.getenv (lit "GOGC") = [])
    (planned : plan = resolveGOGCPlan s cfg profile ⟨limit, [], []⟩
      ((resolveTuningPlanWithProfile limits ratio cfg.memoryRatio cfg.minHeadroomBytes profile liveHeap).applyCPUPolicy
        policy))
    (negative : plan.gogc < 0) :
    let inForce := if s.getenv (lit "GOMEMLIMIT") ≠ [] ∨ plan.gomemlimitStr = [] then limit else plan.gomemlimitBytes
    0 < inForce.toInt ∧ inForce.toInt ≠ maxInt64 := by
  generalize resolved : resolveTuningPlanWithProfile limits ratio cfg.memoryRatio cfg.minHeadroomBytes profile
    liveHeap = own at planned
  have kept := applyCPUPolicy_memory own policy
  rw [resolveGOGCPlan, unset] at planned
  dsimp only at planned
  split at planned
  · rename_i batch
    simp only [Bool.and_eq_true, decide_eq_true_eq] at batch
    -- resolving does not change which limit is in force
    have same := resolveBatchGOGC_memory (own.applyCPUPolicy policy)
    rw [planned, (same _).gomemlimitStr, (same _).gomemlimitBytes]
    rw [planned] at negative
    have profiled : (own.applyCPUPolicy policy).gcProfile = .batchETL := by
      rw [kept.gcProfile, plan_profile resolved.symm, batch.1.1]
    have finite := resolveBatchGOGC_negative profiled negative
    simpa only [Bool.or_eq_true, decide_eq_true_eq] using finite
  · rename_i notBatch
    have other : profile ≠ .batchETL := by
      rintro rfl
      exact notBatch (by simp [free])
    rw [planned, (applyCPUPolicy_gogc own policy).1] at negative
    have nonneg := plan_gogc_nonneg resolved.symm other
    omega

end

/-- **Collection is turned off only below a limit.**  Without an explicit option, a
negative percentage goes with a finite memory limit at the end of the call. -/
theorem autoTune_collects [LawfulFloat64] {s : Surroundings} {opts : List (Option TuneOption)} {limit : Int64}
    {percent : Int} (plain : ∀ gogc, some (TuneOption.withGOGC gogc) ∉ opts)
    (called : percent ∈ (autoTune s opts ⟨limit, [], []⟩).1.gcPercents) (negative : percent < 0) :
    0 < (autoTune s opts ⟨limit, [], []⟩).1.memoryLimit.toInt ∧
      (autoTune s opts ⟨limit, [], []⟩).1.memoryLimit.toInt ≠ maxInt64 := by
  have unset := configure_explicitGOGC s plain
  rw [autoTune] at called ⊢
  dsimp only at called ⊢
  split at called
  · cases called
  · rename_i on
    rw [if_neg on]
    generalize (if (configure s opts).cgroupRoot ≠ [] then s.readLimitsFrom (configure s opts).cgroupRoot
      else s.readLimits) = reading at called ⊢
    obtain ⟨limits, err⟩ := reading
    cases err with
    | some err => cases called
    | none =>
      dsimp only at called ⊢
      split at called
      · cases called
      · rename_i known
        rw [if_neg known]
        obtain ⟨free, same, inForce⟩ := applyTuningPlan_percent called
        rw [inForce]
        rw [same] at negative
        exact resolveGOGCPlan_negative unset free rfl negative

end

section

local instance autoTuneTable : CaseTable := CaseTable.ascii
local instance autoTuneFloats : Float64 := fractions

/-- A service below a ceiling of one GiB. -/
def batchSurroundings : Surroundings where
  getenv _ := []
  readLimits := (ceilingOf (1024 ^ 3) 0, none)
  readLimitsFrom _ := (ceilingOf (1024 ^ 3) 0, none)
  retainedExecutableMemory := .ok 4096

theorem autoTune_collects_batch :
    0 < (autoTune batchSurroundings [some (.withProfile .batchETL)] ⟨9223372036854775807, [], []⟩).1.memoryLimit.toInt ∧
      (autoTune batchSurroundings [some (.withProfile .batchETL)]
        ⟨9223372036854775807, [], []⟩).1.memoryLimit.toInt ≠ maxInt64 :=
  have := fractions_lawful
  autoTune_collects (by simp) (by decide +kernel : (-1 : Int) ∈ _) (by decide)

end

end Microfat.Runtimeinit
