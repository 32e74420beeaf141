/-
# Microfat.Launcher.Inspect — what inspection says about a launch

`inspect` reports, for a mode the variant could run in, the runtime settings it would
run with.  It works on a copy of the base environment in which every key is indexed
at its last entry and nothing is dropped; the launcher works on the settled list.
Both look settings up through an index that is `Sound`, and both indexes find the
last inherited entry, so tuning sees the same and adds the same.

* `buildRuntimeCandidate_predicts`: the reported settings are those of the child.
-/
import Microfat.Launcher.Environ

namespace Microfat.Launcher

open Theory Theory.Json Format Microarch Cgroup

set_option autoImplicit false

/-! ## Candidates -/

inductive EnvironmentSource where
  | inherited
  | autotune
  | unset
  deriving DecidableEq

structure RuntimeEnvironmentValue where
  present : Bool
  value : Bytes
  source : EnvironmentSource

structure RuntimeTuningInfo [Float64] where
  available : Bool
  gomemlimit : Bytes
  gomemlimitBytes : Int64
  gomaxprocs : Int
  gomaxprocsValue : Bytes
  gogc : Bytes
  gcProfile : Bytes
  appliedRatio : Float64.F
  constrainingLimit : Bytes
  gogcSkippedReason : Bytes

structure RuntimeCandidate [Float64] where
  execMode : ExecMode
  retainedExecutableBytes : Int64
  tuning : RuntimeTuningInfo
  /-- The entries of the map, in the order of `runtimeEnvironmentKeys`. -/
  effectiveEnvironment : List (Bytes × RuntimeEnvironmentValue)

/-- One round of the loop over the environment: a later entry replaces an earlier one
in the index. -/
def indexEntry (index : Bytes → Option Nat) (entry : Bytes × Nat) : Bytes → Option Nat :=
  match envKey entry.1 with
  | some k => Function.update index k (some entry.2)
  | none => index

def indexLast (env : List Bytes) : Environ := ⟨env, env.zipIdx.foldl indexEntry fun _ => none⟩

section

variable [Float64] [CaseTable]

def effectiveValue (own env : Environ) (key : Bytes) : RuntimeEnvironmentValue :=
  match env.find key with
  | some e => ⟨true, envValue e, if (own.index key).isSome then .inherited else .autotune⟩
  | none => ⟨false, [], .unset⟩

def buildRuntimeCandidate (p : Process) (baseEnv : List Bytes) (entry : VariantEntry) (limits : Resources)
    (mode : ExecMode) (autotune : AutotuneStatus) (available : Bool) : RuntimeCandidate :=
  let own := indexLast baseEnv
  let (retained, plan, env) :=
    if available then
      let (limits, plan) := resolveRuntimeTuning p limits entry mode own
      (limits.retainedExecutableBytes, plan, if autotune = .enabled then applyRuntimeTuningPlan own plan else own)
    else (runtimeRetainedExecutableBytes p entry mode, TuningPlan.zero, own)
  { execMode := mode
    retainedExecutableBytes := retained
    tuning :=
      { available
        gomemlimit := plan.gomemlimitStr
        gomemlimitBytes := plan.gomemlimitBytes
        gomaxprocs := plan.gomaxprocs
        gomaxprocsValue := plan.gomaxprocsStr
        gogc := plan.gogcStr
        gcProfile := plan.gcProfile.text
        appliedRatio := plan.appliedRatio
        constrainingLimit := plan.constrainingLimit
        gogcSkippedReason := plan.gogcSkippedReason }
    effectiveEnvironment := runtimeEnvironmentKeys.map fun key => (key, effectiveValue own env key) }

end

/-! ## The index of last entries -/

theorem foldl_indexEntry (l : List (Bytes × Nat)) (index : Bytes → Option Nat) (k : Bytes) :
    l.foldl indexEntry index k = ((Table.lastOf (fun e => envKey e.1) k l).map Prod.snd).or (index k) := by
  induction l generalizing index with
  | nil => rfl
  | cons entry rest ih =>
    rw [List.foldl_cons, ih, Table.lastOf_cons]
    cases Table.lastOf (fun e => envKey e.1) k rest with
    | some e => rfl
    | none =>
      rw [Option.none_or, indexEntry]
      cases keyed : envKey entry.1 with
      | none => simp
      | some k' =>
        by_cases same : k' = k
        · simp [same]
        · simp [same, Function.update_of_ne (Ne.symm same)]

section

variable (baseEnv : List Bytes)

/-- Where the index points there is the last entry of the key. -/
theorem indexLast_index (k : Bytes) :
    (indexLast baseEnv).index k = (Table.lastOf (fun e => envKey e.1) k baseEnv.zipIdx).map Prod.snd := by
  exact (foldl_indexEntry baseEnv.zipIdx _ k).trans Option.or_none

theorem lastOf_zipIdx {baseEnv : List Bytes} {k : Bytes} {e : Bytes} {i : Nat}
    (last : Table.lastOf (fun e => envKey e.1) k baseEnv.zipIdx = some (e, i)) :
    baseEnv[i]? = some e ∧ envKey e = some k := by
  obtain ⟨mem, keyed⟩ := Table.lastOf_key last
  exact ⟨List.mem_zipIdx_iff_getElem?.mp mem, keyed⟩

theorem indexLast_sound : (indexLast baseEnv).Sound envKey := by
  intro k i place
  rw [indexLast_index] at place
  obtain ⟨⟨e, j⟩, last, rfl⟩ := Option.map_eq_some_iff.mp place
  exact ⟨e, lastOf_zipIdx last⟩

theorem indexLast_find (k : Bytes) : (indexLast baseEnv).find k = inherited baseEnv k := by
  have same : inherited baseEnv k = (Table.lastOf (fun e => envKey e.1) k baseEnv.zipIdx).map Prod.fst := by
    rw [inherited, ← Table.lastOf_map, List.zipIdx_map_fst]
  rw [same, Table.find, indexLast_index]
  cases last : Table.lastOf (fun e => envKey e.1) k baseEnv.zipIdx with
  | none => rfl
  | some entry => exact (lastOf_zipIdx last).1

end

/-! ## Inspection against dispatch -/

/-- The value a process reads for a key of its environment. -/
def lookupEnv (env : List Bytes) (key : Bytes) : Option Bytes := (env.find? fun e => envKey e = some key).map envValue

section

variable [Float64] [CaseTable]

/-- The environment a candidate reads its settings from. -/
def candidateEnviron (p : Process) (baseEnv : List Bytes) (entry : VariantEntry) (mode : ExecMode) : Environ :=
  match launchPlan p baseEnv entry mode, runtimeAutotuneStatus p with
  | some (_, plan), .enabled => applyRuntimeTuningPlan (indexLast baseEnv) plan
  | _, _ => indexLast baseEnv

section

variable (p : Process) (baseEnv : List Bytes) (entry : VariantEntry) (mode : ExecMode)

theorem candidateEnviron_find (k : Bytes) :
    (candidateEnviron p baseEnv entry mode).find k =
      (inherited baseEnv k).or ((launchOffer p baseEnv entry mode k).map (envEntry k)) := by
  have own := (indexLast_find baseEnv k).trans Option.or_none.symm
  rw [candidateEnviron, launchOffer]
  cases launchPlan p baseEnv entry mode with
  | none => exact own
  | some planned =>
    cases runtimeAutotuneStatus p with
    | enabled =>
      dsimp only
      rw [applyRuntimeTuningPlan_find (indexLast_sound baseEnv), indexLast_find]
    | disabled => exact own
    | dryRun => exact own

/-- The candidate for the reading of the process. -/
theorem buildRuntimeCandidate_environment :
    (buildRuntimeCandidate p baseEnv entry p.cgroupLimits.1 mode (runtimeAutotuneStatus p)
        (p.cgroupLimits.2.isNone && p.cgroupLimits.1.cgroupVersion ≠ versionUnknown)).effectiveEnvironment =
      runtimeEnvironmentKeys.map fun key =>
        (key, effectiveValue (indexLast baseEnv) (candidateEnviron p baseEnv entry mode) key) := by
  have same : (indexLast baseEnv).find gomemlimit = (inheritEnv baseEnv).find gomemlimit := by
    rw [indexLast_find, inheritEnv_find (runtimeEnvironmentKeys_external gomemlimit (by decide))]
  rw [buildRuntimeCandidate, candidateEnviron, launchPlan, resolveRuntimeTuning_congr same]
  by_cases unusable : (p.cgroupLimits.2.isSome || decide (p.cgroupLimits.1.cgroupVersion = versionUnknown)) = true
  · have unavailable : (p.cgroupLimits.2.isNone && decide (p.cgroupLimits.1.cgroupVersion ≠ versionUnknown)) = false := by
      rw [← Option.not_isSome, decide_not, ← Bool.not_or, unusable]
      rfl
    rw [unavailable, if_pos unusable]
    rfl
  · have available : (p.cgroupLimits.2.isNone && decide (p.cgroupLimits.1.cgroupVersion ≠ versionUnknown)) = true := by
      rw [Bool.not_eq_true] at unusable
      rw [← Option.not_isSome, decide_not, ← Bool.not_or, unusable]
      rfl
    rw [available, if_neg unusable]
    rcases resolveRuntimeTuning p p.cgroupLimits.1 entry mode (inheritEnv baseEnv) with ⟨limits, plan⟩
    cases runtimeAutotuneStatus p <;> rfl

end

/-- **Inspection predicts dispatch.**  For each runtime setting the candidate reports
what the child of a launch in that mode finds. -/
theorem buildRuntimeCandidate_predicts (p : Process) (selfPath : Bytes) (baseEnv : List Bytes) (entry : VariantEntry)
    (mode : ExecMode) (hostInfo : Info) (policyRes : PolicyResult) :
    (buildRuntimeCandidate p baseEnv entry p.cgroupLimits.1 mode (runtimeAutotuneStatus p)
        (p.cgroupLimits.2.isNone && p.cgroupLimits.1.cgroupVersion ≠ versionUnknown)).effectiveEnvironment.map
          (fun setting => (setting.1, setting.2.present, setting.2.value)) =
      runtimeEnvironmentKeys.map fun key =>
        match lookupEnv (buildAutoTunedEnviron p selfPath baseEnv entry mode hostInfo policyRes).1 key with
        | some value => (key, true, value)
        | none => (key, false, []) := by
  have external := runtimeEnvironmentKeys_external
  have built : Built baseEnv (Given p selfPath baseEnv entry mode hostInfo policyRes)
    (childEnviron p selfPath baseEnv entry mode hostInfo policyRes) := childEnviron_built
  rw [buildRuntimeCandidate_environment, List.map_map]
  refine List.map_congr_left fun key mem => ?_
  rw [buildAutoTunedEnviron_eq, lookupEnv, built.indexed.find?_entries, childEnviron_find (external key mem),
    ← candidateEnviron_find, Function.comp_apply, effectiveValue]
  cases (candidateEnviron p baseEnv entry mode).find key <;> rfl

end

end Microfat.Launcher
