/-
# Microfat.Launcher.Environ — the environment of the child

The launcher hands the variant its own environment with three changes.  Entries of
the launcher's metadata that came from the parent are dropped, so that a parent
cannot pose as a launcher; duplicate keys are settled on their last entry; and the
launcher adds its metadata and, unless tuning is off, runtime settings the parent
did not make itself.

`upsertEnv` keeps a list of entries and a map from keys to positions, which is the
`Table` of the library.  Runs of upserts are lists of pairs (`launchMetadata`,
`cgroupMetadata`, `planMetadata`).

* `buildAutoTunedEnviron_entries`: what the child's environment consists of;
* `launches_inherit`: what a row of launches makes of a variable;
* `buildAutoTunedEnviron_collects`: collection is turned off only below a memory limit.
-/
import Microfat.Cgroup.Tuning
import Microfat.Launcher.Dispatch
import Microfat.Microarch.Select
import Microfat.Theory.Table

namespace Microfat.Launcher

open Theory Theory.Json Format Microarch Cgroup

set_option autoImplicit false

/-! ## Names -/

def envOriginalExe : Bytes := lit "MICROFAT_ORIGINAL_EXE"
def envSelectedVariant : Bytes := lit "MICROFAT_SELECTED_VARIANT"
def envHostArch : Bytes := lit "MICROFAT_HOST_ARCH"
def envHostLevel : Bytes := lit "MICROFAT_HOST_LEVEL"
def envExecMode : Bytes := lit "MICROFAT_EXEC_MODE"
def envDispatchMode : Bytes := lit "MICROFAT_DISPATCH_MODE"
def envSelectedSHA256 : Bytes := lit "MICROFAT_SELECTED_SHA256"
def envSelectedSize : Bytes := lit "MICROFAT_SELECTED_SIZE"
def envPolicyApplied : Bytes := lit "MICROFAT_POLICY_APPLIED"
def envOverrideReason : Bytes := lit "MICROFAT_OVERRIDE_REASON"
def envCgroupVersion : Bytes := lit "MICROFAT_CGROUP_VERSION"
def envCgroupLimitBytes : Bytes := lit "MICROFAT_CGROUP_LIMIT_BYTES"
def envCgroupHighBytes : Bytes := lit "MICROFAT_CGROUP_HIGH_BYTES"
def envCgroupEffectiveLimitBytes : Bytes := lit "MICROFAT_CGROUP_EFFECTIVE_LIMIT_BYTES"
def envCgroupCPUs : Bytes := lit "MICROFAT_CGROUP_CPUS"
def envCgroupGOMEMLIMIT : Bytes := lit "MICROFAT_CGROUP_GOMEMLIMIT"
def envCgroupGOMAXPROCS : Bytes := lit "MICROFAT_CGROUP_GOMAXPROCS"
def envCgroupGOGC : Bytes := lit "MICROFAT_CGROUP_GOGC"
def envCgroupGCProfile : Bytes := lit "MICROFAT_CGROUP_GC_PROFILE"
def envCgroupGOGCSkippedReason : Bytes := lit "MICROFAT_CGROUP_GOGC_SKIPPED_REASON"
def envAutotune : Bytes := lit "MICROFAT_AUTOTUNE"
def envCPUPolicy : Bytes := lit "MICROFAT_CPU_POLICY"
def envDryRun : Bytes := lit "MICROFAT_DRY_RUN"
def envMemRatio : Bytes := lit "MICROFAT_MEM_RATIO"
def envGCProfile : Bytes := lit "MICROFAT_GC_PROFILE"
def envLiveHeapEstimate : Bytes := lit "MICROFAT_LIVE_HEAP_ESTIMATE"

def gomemlimit : Bytes := lit "GOMEMLIMIT"
def gomaxprocs : Bytes := lit "GOMAXPROCS"
def gogc : Bytes := lit "GOGC"

def runtimeEnvironmentKeys : List Bytes := [gomemlimit, gomaxprocs, gogc]

def internalKeys : List Bytes :=
  [envOriginalExe, envSelectedVariant, envHostArch, envHostLevel, envExecMode, envDispatchMode, envSelectedSHA256,
    envSelectedSize, envPolicyApplied, envOverrideReason, envCgroupVersion, envCgroupLimitBytes, envCgroupHighBytes,
    envCgroupEffectiveLimitBytes, envCgroupCPUs, envCgroupGOMEMLIMIT, envCgroupGOMAXPROCS, envCgroupGOGC,
    envCgroupGCProfile, envCgroupGOGCSkippedReason]

def isMicrofatInternalEnv (k : Bytes) : Bool := k ∈ internalKeys

/-! ## Entries -/

/-- The key of an entry: what is before the first `=`, if there is one and it is not first. -/
def envKey (e : Bytes) : Option Bytes :=
  match cut 61 e with
  | (k, _, found) => if !found || k = [] then none else some k

def envValue (e : Bytes) : Bytes := (cut 61 e).2.1

def envEntry (key val : Bytes) : Bytes := key ++ 61 :: val

/-- The list of entries with the map `keyIndex`. -/
abbrev Environ := Table Bytes Bytes

def upsertEnv (env : Environ) (pair : Bytes × Bytes) : Environ := env.put pair.1 (envEntry pair.1 pair.2)

def upsertAll (env : Environ) (pairs : List (Bytes × Bytes)) : Environ := pairs.foldl upsertEnv env

/-- An upsert for a key that is not there, if it is wanted. -/
def upsertAbsent (env : Environ) (key : Bytes) (wanted : Bool) (val : Bytes) : Environ :=
  if (env.index key).isNone && wanted then upsertEnv env (key, val) else env

/-- The loop over the base environment. -/
def inheritEnv (baseEnv : List Bytes) : Environ :=
  baseEnv.foldl (Table.inherit envKey isMicrofatInternalEnv) Table.empty

/-! ## Tuning -/

def ExecMode.text : ExecMode → Bytes
  | .auto => lit "auto"
  | .cache => lit "cache"
  | .memfd => lit "memfd"

inductive AutotuneStatus where
  | enabled
  | disabled
  | dryRun
  deriving DecidableEq

/-- What a launcher process sees of its surroundings. -/
structure Process [Float64] where
  getenv : Bytes → Bytes
  /-- `filepath.Abs`, which fails without a working directory. -/
  abs : Bytes → Except Err Bytes
  /-- `readCgroupLimitsFunc`: a reading, and the error that comes with it. -/
  cgroupLimits : Resources × Option Err
  pageSize : Int64

section

variable [Float64] [CaseTable]

def runtimeAutotuneStatus (p : Process) : AutotuneStatus :=
  let opt := trimSpace (p.getenv envAutotune)
  if opt = lit "0" || equalFold opt (lit "false") then .disabled
  else
    let opt := trimSpace (p.getenv envDryRun)
    if opt = lit "1" || equalFold opt (lit "true") then .dryRun else .enabled

omit [CaseTable] in
/-- The executable in whole pages, for a variant that stays in memory. -/
def runtimeRetainedExecutableBytes (p : Process) (entry : VariantEntry) (execMode : ExecMode) : Int64 :=
  if execMode ≠ .memfd || entry.uncompressedSize.toInt ≤ 0 || maxPayloadSize < entry.uncompressedSize.toInt then 0
  else (entry.uncompressedSize + p.pageSize - 1) / p.pageSize * p.pageSize

def resolveRuntimeTuning (p : Process) (limits : Resources) (entry : VariantEntry) (execMode : ExecMode)
    (env : Environ) : Resources × TuningPlan :=
  let gcProfile := (parseGCProfile (p.getenv envGCProfile)).1
  let liveHeap := match parseByteSize (p.getenv envLiveHeapEstimate) with
    | .ok bytes => bytes
    | .error _ => 0
  let retained := runtimeRetainedExecutableBytes p entry execMode
  let limits := if 0 < retained.toInt then { limits with retainedExecutableBytes := retained } else limits
  let plan := resolveTuningPlanWithProfile limits (p.getenv envMemRatio) Float64.defaultMemoryRatio
    defaultMinHeadroomBytes gcProfile liveHeap
  let plan := plan.applyCPUPolicy (resolveCPUPolicy (p.getenv envCPUPolicy) .static)
  match env.find gomemlimit with
  | some e => (limits, plan.resolveBatchGOGC (runtimeMemoryLimit (envValue e)))
  | none => (limits, plan)

/-! ## Metadata -/

/-- What is known before the cgroup is read. -/
def launchMetadata (p : Process) (selfPath : Bytes) (entry : VariantEntry) (execMode : ExecMode) (hostInfo : Info)
    (policyRes : PolicyResult) : List (Bytes × Bytes) :=
  (if selfPath ≠ [] then
    [(envOriginalExe, match p.abs selfPath with
      | .ok absPath => absPath
      | .error _ => cleanPath selfPath)]
  else []) ++
  [(envSelectedVariant, entry.level),
    (envHostArch, hostInfo.arch),
    (envHostLevel, hostInfo.level),
    (envExecMode, execMode.text),
    (envDispatchMode, execMode.text),
    (envSelectedSHA256, entry.sha256),
    (envSelectedSize, decimalInt entry.uncompressedSize.toInt)] ++
  (if policyRes.policyApplied ≠ [] then
    [(envPolicyApplied, policyRes.policyApplied), (envOverrideReason, policyRes.overrideReason)]
  else [])

def cgroupMetadata (limits : Resources) : List (Bytes × Bytes) :=
  [(envCgroupVersion, decimalInt limits.cgroupVersion),
    (envCgroupLimitBytes, decimalInt limits.memoryLimitBytes.toInt)] ++
  (if limits.hasMemoryHigh then [(envCgroupHighBytes, decimalInt limits.memoryHighBytes.toInt)] else []) ++
  (if limits.effectiveMemoryLimit.2 then
    [(envCgroupEffectiveLimitBytes, decimalInt limits.effectiveMemoryLimitBytes.toInt)]
  else []) ++
  [(envCgroupCPUs, Float64.format limits.cpuQuota)]

def planMetadata (plan : TuningPlan) : List (Bytes × Bytes) :=
  (if plan.gomemlimitStr ≠ [] then [(envCgroupGOMEMLIMIT, plan.gomemlimitStr)] else []) ++
  (if plan.gomaxprocsStr ≠ [] then [(envCgroupGOMAXPROCS, plan.gomaxprocsStr)] else []) ++
  (if plan.gogcStr ≠ [] then [(envCgroupGOGC, plan.gogcStr)] else []) ++
  (if plan.gcProfile ≠ .default then [(envCgroupGCProfile, plan.gcProfile.text)] else [])

def populateCgroupEnviron (env : Environ) (limits : Resources) : Environ := upsertAll env (cgroupMetadata limits)

def skippedMetadata (explicitGC : Bool) (plan : TuningPlan) : List (Bytes × Bytes) :=
  if !explicitGC && plan.gogcSkippedReason ≠ [] then [(envCgroupGOGCSkippedReason, plan.gogcSkippedReason)] else []

def resolveBatchGCEnviron (env : Environ) (plan : TuningPlan) : Environ :=
  upsertAll env (skippedMetadata (env.index gogc).isSome plan)

def applyRuntimeTuningPlan (env : Environ) (plan : TuningPlan) : Environ :=
  let env := upsertAbsent env gomemlimit (plan.gomemlimitStr ≠ []) plan.gomemlimitStr
  let env := upsertAbsent env gomaxprocs (plan.gomaxprocsStr ≠ []) plan.gomaxprocsStr
  upsertAbsent env gogc (plan.gogcApplied && plan.gogcStr ≠ []) plan.gogcStr

def buildAutoTunedEnviron (p : Process) (selfPath : Bytes) (baseEnv : List Bytes) (entry : VariantEntry)
    (execMode : ExecMode) (hostInfo : Info) (policyRes : PolicyResult) : List Bytes × Option Resources :=
  let env := upsertAll (inheritEnv baseEnv) (launchMetadata p selfPath entry execMode hostInfo policyRes)
  let (limits, err) := p.cgroupLimits
  if err.isSome || limits.cgroupVersion = versionUnknown then (env.entries, none)
  else
    let env := populateCgroupEnviron env limits
    let (limits, plan) := resolveRuntimeTuning p limits entry execMode env
    let env := resolveBatchGCEnviron env plan
    let env := upsertAll env (planMetadata plan)
    if runtimeAutotuneStatus p ≠ .enabled then (env.entries, some limits)
    else ((applyRuntimeTuningPlan env plan).entries, some limits)

end

/-! ## Keys -/

theorem envKey_iff {e k : Bytes} : envKey e = some k ↔ k ≠ [] ∧ 61 ∉ k ∧ e = envEntry k (envValue e) := by
  rw [envKey, envValue, envEntry]
  rcases shape : cut 61 e with ⟨front, back, found⟩
  dsimp only
  cases found with
  | false =>
    refine ⟨fun h => by simp at h, fun ⟨_, free, whole⟩ => ?_⟩
    rw [whole, cut_entry free] at shape
    cases shape
  | true =>
    obtain ⟨whole, free⟩ := cut_found shape
    by_cases empty : front = []
    · subst empty
      refine ⟨fun h => by simp at h, fun ⟨nonempty, free', whole'⟩ => ?_⟩
      rw [whole', cut_entry free'] at shape
      exact absurd (Prod.mk.inj shape).1 nonempty
    · simp only [empty, Bool.not_true, Bool.false_or, decide_false, Bool.false_eq_true, if_false, Option.some.injEq]
      constructor
      · rintro rfl
        exact ⟨empty, free, whole⟩
      · rintro ⟨-, free', whole'⟩
        rw [whole', cut_entry free'] at shape
        exact (Prod.mk.inj shape).1.symm

/-- A name that can be a key. -/
def Usable (k : Bytes) : Prop := k ≠ [] ∧ 61 ∉ k

instance (k : Bytes) : Decidable (Usable k) := inferInstanceAs (Decidable (_ ∧ _))

theorem Usable.envValue {k : Bytes} (usable : Usable k) (v : Bytes) : envValue (envEntry k v) = v := by
  rw [Launcher.envValue, envEntry, cut_entry usable.2]

theorem Usable.envKey {k : Bytes} (usable : Usable k) (v : Bytes) : envKey (envEntry k v) = some k :=
  envKey_iff.mpr ⟨usable.1, usable.2, by rw [usable.envValue]⟩

theorem internalKeys_usable : ∀ k ∈ internalKeys, Usable k := by decide +kernel

theorem runtimeEnvironmentKeys_usable : ∀ k ∈ runtimeEnvironmentKeys, Usable k := by decide

theorem runtimeEnvironmentKeys_external : ∀ k ∈ runtimeEnvironmentKeys, isMicrofatInternalEnv k = false := by
  decide +kernel

/-- Pairs with internal keys. -/
def Internal (pairs : List (Bytes × Bytes)) : Prop := ∀ k ∈ pairs.map Prod.fst, isMicrofatInternalEnv k = true

namespace Internal

variable {pairs more : List (Bytes × Bytes)}

theorem pair (internal : Internal pairs) {pair : Bytes × Bytes} (mem : pair ∈ pairs) :
    isMicrofatInternalEnv pair.1 = true :=
  internal pair.1 (List.mem_map_of_mem mem)

theorem append (first : Internal pairs) (second : Internal more) : Internal (pairs ++ more) := by
  intro k mem
  rw [List.map_append, List.mem_append] at mem
  exact mem.elim (first k) (second k)

section

variable (internal : Internal pairs)

include internal

theorem optional {c : Prop} [Decidable c] : Internal (if c then pairs else []) := by
  split
  · exact internal
  · exact fun _ mem => absurd mem List.not_mem_nil

theorem usable {pair : Bytes × Bytes} (mem : pair ∈ pairs) : Usable pair.1 :=
  internalKeys_usable _ (of_decide_eq_true (internal.pair mem))

theorem other {k : Bytes} (external : isMicrofatInternalEnv k = false) {pair : Bytes × Bytes}
    (mem : pair ∈ pairs) : pair.1 ≠ k := by
  rintro rfl
  rw [internal.pair mem] at external
  cases external

end

end Internal

/-! ## Upserts -/

/-- The last entry of the base environment for a key. -/
abbrev inherited (baseEnv : List Bytes) (k : Bytes) : Option Bytes := Table.lastOf envKey k baseEnv

/-- An environment under construction: the settled base environment, and behind it
entries the launcher gives. -/
structure Built (baseEnv : List Bytes) (given : Bytes → Bytes → Prop) (env : Environ) : Prop where
  indexed : env.Indexed envKey
  entries : ∃ added, env.entries = Table.settle envKey isMicrofatInternalEnv [] baseEnv ++ added ∧
    ∀ e ∈ added, ∃ k v, Usable k ∧ given k v ∧ e = envEntry k v

/-- A key whose entry does not disturb the base environment. -/
def Fresh (baseEnv : List Bytes) (k : Bytes) : Prop :=
  Usable k ∧ (isMicrofatInternalEnv k = true ∨ inherited baseEnv k = none)

theorem Fresh.of_internal {baseEnv : List Bytes} {k : Bytes} (internal : isMicrofatInternalEnv k = true) :
    Fresh baseEnv k :=
  ⟨internalKeys_usable k (of_decide_eq_true internal), .inl internal⟩

section

variable {baseEnv : List Bytes} {given : Bytes → Bytes → Prop} {env : Environ}

theorem inheritEnv_indexed (baseEnv : List Bytes) : (inheritEnv baseEnv).Indexed envKey :=
  Table.indexed_empty.foldl_inherit baseEnv

theorem built_inheritEnv : Built baseEnv given (inheritEnv baseEnv) where
  indexed := inheritEnv_indexed baseEnv
  entries := by
    have known : ∀ k : Bytes, k ∈ ([] : List Bytes) ↔ (Table.empty : Environ).index k ≠ none := by simp [Table.empty]
    refine ⟨[], ?_, by simp⟩
    rw [inheritEnv, Table.indexed_empty.entries_foldl_inherit baseEnv known (by simp)]
    simp [Table.empty]

theorem Built.upsert (built : Built baseEnv given env) {k v : Bytes} (fresh : Fresh baseEnv k) (new : given k v) :
    Built baseEnv given (upsertEnv env (k, v)) := by
  obtain ⟨added, shape, known⟩ := built.entries
  have others : ∀ e ∈ Table.settle envKey isMicrofatInternalEnv [] baseEnv, envKey e ≠ some k := by
    intro e mem keyed
    rcases Table.mem_settle baseEnv mem with ⟨keyless, -⟩ | ⟨k', same, external, -, last⟩
    · rw [keyless] at keyed
      cases keyed
    · rw [same, Option.some.injEq] at keyed
      subst keyed
      rcases fresh.2 with internal | absent
      · rw [external] at internal
        cases internal
      · rw [inherited, last] at absent
        cases absent
  obtain ⟨added', shape', kept⟩ := built.indexed.put_behind shape others
  refine ⟨built.indexed.put (fresh.1.envKey v), added', shape', fun e mem => ?_⟩
  rcases kept e mem with rfl | old
  · exact ⟨k, v, fresh.1, new, rfl⟩
  · exact known e old

theorem Built.upserts (built : Built baseEnv given env) {pairs : List (Bytes × Bytes)} (internal : Internal pairs)
    (new : ∀ pair ∈ pairs, given pair.1 pair.2) : Built baseEnv given (upsertAll env pairs) := by
  induction pairs generalizing env with
  | nil => exact built
  | cons pair rest ih =>
    rw [List.forall_mem_cons] at new
    rw [Internal, List.map_cons, List.forall_mem_cons] at internal
    exact ih (built.upsert (.of_internal internal.1) new.1) internal.2 new.2

/-! ### Looking keys up -/

section

variable (sound : env.Sound envKey)

include sound

theorem sound_upsertEnv {pair : Bytes × Bytes} (usable : Usable pair.1) :
    (upsertEnv env pair).Sound envKey :=
  sound.put (usable.envKey pair.2)

/-- **Metadata leaves the other keys alone.** -/
theorem upsertAll_find {pairs : List (Bytes × Bytes)} (internal : Internal pairs) :
    (upsertAll env pairs).Sound envKey ∧
      ∀ k, isMicrofatInternalEnv k = false → (upsertAll env pairs).find k = env.find k := by
  induction pairs generalizing env with
  | nil => exact ⟨sound, fun _ _ => rfl⟩
  | cons pair rest ih =>
    have next := ih (sound_upsertEnv sound (internal.usable List.mem_cons_self)) fun k mem =>
      internal k (List.mem_cons_of_mem _ mem)
    refine ⟨next.1, fun k external => (next.2 k external).trans ?_⟩
    rw [upsertEnv, sound.find_put, if_neg (internal.other external List.mem_cons_self).symm]

theorem find_isSome (k : Bytes) : (env.find k).isSome = (env.index k).isSome := by
  rw [Table.find]
  cases place : env.index k with
  | none => rfl
  | some i =>
    obtain ⟨e, here, -⟩ := sound k i place
    simp [here]

theorem find_eq_none (k : Bytes) : env.find k = none ↔ (env.index k).isNone = true := by
  rw [← Option.not_isSome, ← find_isSome sound]
  simp

/-- **An upsert for an absent key** adds an entry for that key if it has none. -/
theorem upsertAbsent_find {key : Bytes} (usable : Usable key) (wanted : Bool) (val : Bytes) :
    (upsertAbsent env key wanted val).Sound envKey ∧
      ∀ k, (upsertAbsent env key wanted val).find k =
        (env.find k).or (if k = key ∧ wanted = true then some (envEntry key val) else none) := by
  rw [upsertAbsent]
  split
  · rename_i absent
    rw [Bool.and_eq_true, ← find_eq_none sound] at absent
    refine ⟨sound_upsertEnv sound usable, fun k => ?_⟩
    rw [upsertEnv, sound.find_put]
    by_cases same : k = key
    · simp [same, absent]
    · simp [same]
  · rename_i present
    rw [Bool.and_eq_true, ← find_eq_none sound] at present
    refine ⟨sound, fun k => ?_⟩
    split
    · rename_i both
      obtain ⟨e, found⟩ := Option.ne_none_iff_exists'.mp fun none => present ⟨none, both.2⟩
      rw [both.1, found]
      rfl
    · exact Option.or_none.symm

end

theorem Built.absent (built : Built baseEnv given env) {k : Bytes} (wanted : Bool) (v : Bytes) (usable : Usable k)
    (there : (inherited baseEnv k).isSome → (env.find k).isSome)
    (new : inherited baseEnv k = none → wanted = true → given k v) :
    Built baseEnv given (upsertAbsent env k wanted v) := by
  rw [upsertAbsent]
  split
  · rename_i free
    rw [Bool.and_eq_true, ← find_eq_none built.indexed.sound] at free
    have nothing : inherited baseEnv k = none := by
      rw [← Option.not_isSome_iff_eq_none]
      intro some
      have found := there some
      rw [free.1] at found
      cases found
    exact built.upsert ⟨usable, .inr nothing⟩ (new nothing free.2)
  · exact built

theorem upsertAll_append (env : Environ) (first second : List (Bytes × Bytes)) :
    upsertAll env (first ++ second) = upsertAll (upsertAll env first) second :=
  List.foldl_append

theorem inheritEnv_find {k : Bytes} (external : isMicrofatInternalEnv k = false) :
    (inheritEnv baseEnv).find k = inherited baseEnv k := by
  rw [inheritEnv, Table.indexed_empty.find_foldl_inherit baseEnv external]
  exact Option.or_none

end

/-! ## The child environment -/

section

variable [Float64]

/-- What a plan has to offer for a runtime setting. -/
def offered (plan : TuningPlan) (k : Bytes) : Option Bytes :=
  if k = gomemlimit then if plan.gomemlimitStr ≠ [] then some plan.gomemlimitStr else none
  else if k = gomaxprocs then if plan.gomaxprocsStr ≠ [] then some plan.gomaxprocsStr else none
  else if k = gogc then if plan.gogcApplied && plan.gogcStr ≠ [] then some plan.gogcStr else none
  else none

theorem applyRuntimeTuningPlan_find {env : Environ} (sound : env.Sound envKey) (plan : TuningPlan) (k : Bytes) :
    (applyRuntimeTuningPlan env plan).find k = (env.find k).or ((offered plan k).map (envEntry k)) := by
  have usable := runtimeEnvironmentKeys_usable
  have first := upsertAbsent_find sound (usable gomemlimit (by decide)) (plan.gomemlimitStr ≠ []) plan.gomemlimitStr
  have second := upsertAbsent_find first.1 (usable gomaxprocs (by decide)) (plan.gomaxprocsStr ≠ [])
    plan.gomaxprocsStr
  have third := upsertAbsent_find second.1 (usable gogc (by decide)) (plan.gogcApplied && plan.gogcStr ≠ [])
    plan.gogcStr
  have apart : gomaxprocs ≠ gomemlimit ∧ gogc ≠ gomemlimit ∧ gogc ≠ gomaxprocs := by decide
  rw [applyRuntimeTuningPlan, third.2, second.2, first.2, offered]
  simp only [Option.or_assoc, decide_eq_true_eq]
  congr 1
  by_cases memory : k = gomemlimit
  · subst memory
    simp [apart.1.symm, apart.2.1.symm]
    split <;> rfl
  · by_cases processors : k = gomaxprocs
    · subst processors
      simp [apart.1, apart.2.2.symm]
      split <;> rfl
    · by_cases collector : k = gogc
      · subst collector
        simp [apart.2.1, apart.2.2]
      · simp [collector, processors, memory]

theorem Built.apply {baseEnv : List Bytes} {given : Bytes → Bytes → Prop} {env : Environ} {plan : TuningPlan}
    (built : Built baseEnv given env)
    (there : ∀ k, isMicrofatInternalEnv k = false → env.find k = inherited baseEnv k)
    (new : ∀ k v, k ∈ runtimeEnvironmentKeys → inherited baseEnv k = none → offered plan k = some v → given k v) :
    Built baseEnv given (applyRuntimeTuningPlan env plan) := by
  have usable := runtimeEnvironmentKeys_usable
  have external := runtimeEnvironmentKeys_external
  -- what was there before an upsert is there after it
  have step : ∀ {env : Environ}, env.Sound envKey → ∀ {key : Bytes}, Usable key → ∀ wanted val k,
      (env.find k).isSome → ((upsertAbsent env key wanted val).find k).isSome := by
    intro env sound key usable wanted val k some
    rw [(upsertAbsent_find sound usable wanted val).2]
    simp [some]
  have start : ∀ k ∈ runtimeEnvironmentKeys, (inherited baseEnv k).isSome → (env.find k).isSome := by
    intro k mem some
    rwa [there k (external k mem)]
  have memory : gomemlimit ∈ runtimeEnvironmentKeys := by decide
  have processors : gomaxprocs ∈ runtimeEnvironmentKeys := by decide
  have collector : gogc ∈ runtimeEnvironmentKeys := by decide
  have first := built.absent (plan.gomemlimitStr ≠ []) plan.gomemlimitStr (usable _ memory) (start _ memory)
    fun nothing set => new _ _ memory nothing (by simpa [offered] using set)
  have second := first.absent (plan.gomaxprocsStr ≠ []) plan.gomaxprocsStr (usable _ processors)
    (fun some => step built.indexed.sound (usable _ memory) _ _ _ (start _ processors some))
    fun nothing set => new _ _ processors nothing (by rw [offered, if_neg (by decide)]; simpa using set)
  exact second.absent (plan.gogcApplied && plan.gogcStr ≠ []) plan.gogcStr (usable _ collector)
    (fun some => step first.indexed.sound (usable _ processors) _ _ _
      (step built.indexed.sound (usable _ memory) _ _ _ (start _ collector some)))
    fun nothing set =>
      new _ _ collector nothing (by rw [offered, if_neg (by decide), if_neg (by decide)]; simpa using set)

/-! ### What a launch settles on -/

variable [CaseTable]

/-- The reading and the plan of a launch, when there is a usable reading. -/
def launchPlan (p : Process) (baseEnv : List Bytes) (entry : VariantEntry) (execMode : ExecMode) :
    Option (Resources × TuningPlan) :=
  if p.cgroupLimits.2.isSome || p.cgroupLimits.1.cgroupVersion = versionUnknown then none
  else some (resolveRuntimeTuning p p.cgroupLimits.1 entry execMode (inheritEnv baseEnv))

/-- All pairs of metadata of a launch, in the order of the upserts. -/
def metadata (p : Process) (selfPath : Bytes) (baseEnv : List Bytes) (entry : VariantEntry) (execMode : ExecMode)
    (hostInfo : Info) (policyRes : PolicyResult) : List (Bytes × Bytes) :=
  launchMetadata p selfPath entry execMode hostInfo policyRes ++
    match launchPlan p baseEnv entry execMode with
    | none => []
    | some (_, plan) =>
      cgroupMetadata p.cgroupLimits.1 ++ skippedMetadata (inherited baseEnv gogc).isSome plan ++ planMetadata plan

/-- What a launch offers for a runtime setting. -/
def launchOffer (p : Process) (baseEnv : List Bytes) (entry : VariantEntry) (execMode : ExecMode) (k : Bytes) :
    Option Bytes :=
  match launchPlan p baseEnv entry execMode, runtimeAutotuneStatus p with
  | some (_, plan), .enabled => offered plan k
  | _, _ => none

/-- The child environment with its index. -/
def childEnviron (p : Process) (selfPath : Bytes) (baseEnv : List Bytes) (entry : VariantEntry) (execMode : ExecMode)
    (hostInfo : Info) (policyRes : PolicyResult) : Environ :=
  let env := upsertAll (inheritEnv baseEnv) (metadata p selfPath baseEnv entry execMode hostInfo policyRes)
  match launchPlan p baseEnv entry execMode, runtimeAutotuneStatus p with
  | some (_, plan), .enabled => applyRuntimeTuningPlan env plan
  | _, _ => env

section

variable {p : Process} {selfPath : Bytes} {baseEnv : List Bytes} {entry : VariantEntry} {execMode : ExecMode}
  {hostInfo : Info} {policyRes : PolicyResult} {k v : Bytes}

omit [CaseTable] in
theorem launchMetadata_internal : Internal (launchMetadata p selfPath entry execMode hostInfo policyRes) := by
  refine .append (.append (.optional ?_) ?_) (.optional ?_)
  · show ∀ k ∈ [envOriginalExe], _
    decide
  · show ∀ k ∈ [envSelectedVariant, envHostArch, envHostLevel, envExecMode, envDispatchMode, envSelectedSHA256,
      envSelectedSize], _
    decide +kernel
  · show ∀ k ∈ [envPolicyApplied, envOverrideReason], _
    decide

omit [CaseTable] in
theorem cgroupMetadata_internal (limits : Resources) : Internal (cgroupMetadata limits) := by
  refine .append (.append (.append ?_ (.optional ?_)) (.optional ?_)) ?_
  · show ∀ k ∈ [envCgroupVersion, envCgroupLimitBytes], _
    decide
  · show ∀ k ∈ [envCgroupHighBytes], _
    decide
  · show ∀ k ∈ [envCgroupEffectiveLimitBytes], _
    decide
  · show ∀ k ∈ [envCgroupCPUs], _
    decide

omit [CaseTable] in
theorem skippedMetadata_internal (explicitGC : Bool) (plan : TuningPlan) :
    Internal (skippedMetadata explicitGC plan) := by
  refine .optional ?_
  show ∀ k ∈ [envCgroupGOGCSkippedReason], _
  decide

omit [CaseTable] in
theorem planMetadata_internal (plan : TuningPlan) : Internal (planMetadata plan) := by
  refine .append (.append (.append (.optional ?_) (.optional ?_)) (.optional ?_)) (.optional ?_)
  · show ∀ k ∈ [envCgroupGOMEMLIMIT], _
    decide
  · show ∀ k ∈ [envCgroupGOMAXPROCS], _
    decide
  · show ∀ k ∈ [envCgroupGOGC], _
    decide
  · show ∀ k ∈ [envCgroupGCProfile], _
    decide

/-- **Metadata has internal keys only.** -/
theorem metadata_internal : Internal (metadata p selfPath baseEnv entry execMode hostInfo policyRes) := by
  refine launchMetadata_internal.append ?_
  split
  · exact fun _ mem => absurd mem List.not_mem_nil
  · exact ((cgroupMetadata_internal _).append (skippedMetadata_internal _ _)).append (planMetadata_internal _)

omit [Float64] [CaseTable] in
theorem find_metadata (baseEnv : List Bytes) {pairs : List (Bytes × Bytes)} (internal : Internal pairs)
    (external : isMicrofatInternalEnv k = false) :
    (upsertAll (inheritEnv baseEnv) pairs).find k = inherited baseEnv k := by
  rw [(upsertAll_find (inheritEnv_indexed baseEnv).sound internal).2 k external, inheritEnv_find external]

/-- Tuning reads one entry of the environment. -/
theorem resolveRuntimeTuning_congr {env env' : Environ} (same : env.find gomemlimit = env'.find gomemlimit)
    (limits : Resources) :
    resolveRuntimeTuning p limits entry execMode env = resolveRuntimeTuning p limits entry execMode env' := by
  rw [resolveRuntimeTuning, resolveRuntimeTuning, same]

theorem buildAutoTunedEnviron_eq :
    (buildAutoTunedEnviron p selfPath baseEnv entry execMode hostInfo policyRes).1 =
      (childEnviron p selfPath baseEnv entry execMode hostInfo policyRes).entries := by
  have external := runtimeEnvironmentKeys_external
  rw [buildAutoTunedEnviron, childEnviron, metadata, launchPlan]
  dsimp only
  by_cases unusable : (p.cgroupLimits.2.isSome || decide (p.cgroupLimits.1.cgroupVersion = versionUnknown)) = true
  · rw [if_pos unusable, if_pos unusable]
    simp
  · rw [if_neg unusable, if_neg unusable]
    have before : Internal (launchMetadata p selfPath entry execMode hostInfo policyRes ++
        cgroupMetadata p.cgroupLimits.1) :=
      launchMetadata_internal.append (cgroupMetadata_internal _)
    have found := fun k mem => find_metadata baseEnv before (external k mem)
    have sound := (upsertAll_find (inheritEnv_indexed baseEnv).sound before).1
    rw [upsertAll_append] at found sound
    have explicitGC := find_isSome sound gogc
    rw [found gogc (by decide)] at explicitGC
    rw [populateCgroupEnviron, resolveRuntimeTuning_congr
      ((found gomemlimit (by decide)).trans (inheritEnv_find (external gomemlimit (by decide))).symm)]
    rcases resolveRuntimeTuning p p.cgroupLimits.1 entry execMode (inheritEnv baseEnv) with ⟨limits, plan⟩
    dsimp only
    rw [resolveBatchGCEnviron, ← explicitGC, ← upsertAll_append, ← upsertAll_append, ← upsertAll_append]
    simp only [List.append_assoc]
    cases runtimeAutotuneStatus p <;> rfl

/-- What the child environment says about a key that is not metadata. -/
theorem childEnviron_find (external : isMicrofatInternalEnv k = false) :
    (childEnviron p selfPath baseEnv entry execMode hostInfo policyRes).find k =
      (inherited baseEnv k).or ((launchOffer p baseEnv entry execMode k).map (envEntry k)) := by
  have internal : Internal (metadata p selfPath baseEnv entry execMode hostInfo policyRes) := metadata_internal
  have found := find_metadata baseEnv internal external
  have sound := (upsertAll_find (inheritEnv_indexed baseEnv).sound internal).1
  rw [childEnviron, launchOffer]
  split
  · rw [applyRuntimeTuningPlan_find sound, found]
  · rw [found]
    exact Option.or_none.symm

/-- What the launcher gives: metadata, and offers for settings the parent did not make. -/
def Given (p : Process) (selfPath : Bytes) (baseEnv : List Bytes) (entry : VariantEntry) (execMode : ExecMode)
    (hostInfo : Info) (policyRes : PolicyResult) (k v : Bytes) : Prop :=
  isMicrofatInternalEnv k = true ∧ (k, v) ∈ metadata p selfPath baseEnv entry execMode hostInfo policyRes ∨
    k ∈ runtimeEnvironmentKeys ∧ inherited baseEnv k = none ∧ launchOffer p baseEnv entry execMode k = some v

theorem childEnviron_built :
    Built baseEnv (Given p selfPath baseEnv entry execMode hostInfo policyRes)
      (childEnviron p selfPath baseEnv entry execMode hostInfo policyRes) := by
  have internal : Internal (metadata p selfPath baseEnv entry execMode hostInfo policyRes) := metadata_internal
  have described : Built baseEnv (Given p selfPath baseEnv entry execMode hostInfo policyRes) _ :=
    built_inheritEnv.upserts internal fun pair mem => .inl ⟨internal.pair mem, mem⟩
  rw [childEnviron]
  split
  · rename_i limits plan planned enabled
    refine described.apply (fun k external => find_metadata baseEnv internal external) fun k v mem nothing offer => ?_
    exact .inr ⟨mem, nothing, by rw [launchOffer, planned, enabled]; exact offer⟩
  · exact described

/-- **The child environment.**  The base environment without internal entries, each key
once where it came first, with its last entry, and entries without a key as they are;
behind it metadata the launcher computed, and runtime settings the parent did not make.
Internal entries of the base environment change nothing. -/
theorem buildAutoTunedEnviron_entries :
    ((buildAutoTunedEnviron p selfPath baseEnv entry execMode hostInfo policyRes).1.filterMap envKey).Nodup ∧
    (∃ kept added, (buildAutoTunedEnviron p selfPath baseEnv entry execMode hostInfo policyRes).1 = kept ++ added ∧
      kept.filterMap envKey = ((baseEnv.filterMap envKey).filter fun k => !isMicrofatInternalEnv k).eraseDups ∧
      (∀ e ∈ kept, ∀ k, envKey e = some k → inherited baseEnv k = some e) ∧
      kept.filter (fun e => (envKey e).isNone) = baseEnv.filter (fun e => (envKey e).isNone) ∧
      ∀ e ∈ added, ∃ k v, e = envEntry k v ∧ envKey e = some k ∧
        Given p selfPath baseEnv entry execMode hostInfo policyRes k v) ∧
    buildAutoTunedEnviron p selfPath (baseEnv.filter fun e => !((envKey e).any isMicrofatInternalEnv)) entry execMode
      hostInfo policyRes = buildAutoTunedEnviron p selfPath baseEnv entry execMode hostInfo policyRes := by
  have built : Built baseEnv _ (childEnviron p selfPath baseEnv entry execMode hostInfo policyRes) := childEnviron_built
  refine ⟨?_, ?_, ?_⟩
  · rw [buildAutoTunedEnviron_eq]
    exact built.indexed.nodup
  · obtain ⟨added, shape, known⟩ := built.entries
    refine ⟨_, added, buildAutoTunedEnviron_eq.trans shape, ?_, ?_, Table.settle_keyless baseEnv, ?_⟩
    · rw [Table.settle_keys]
      simp
    · intro e mem k keyed
      rcases Table.mem_settle baseEnv mem with ⟨keyless, -⟩ | ⟨k', same, -, -, last⟩
      · rw [keyless] at keyed
        cases keyed
      · rw [same, Option.some.injEq] at keyed
        rw [← keyed]
        exact last
    · intro e mem
      obtain ⟨k, v, usable, given, rfl⟩ := known e mem
      exact ⟨k, v, rfl, usable.envKey v, given⟩
  · rw [buildAutoTunedEnviron, buildAutoTunedEnviron, inheritEnv, Table.foldl_inherit_filter]
    rfl

/-! ## Launchers that start launchers -/

/-- What one launcher sees and decides. -/
structure Launch where
  process : Process
  selfPath : Bytes
  entry : VariantEntry
  execMode : ExecMode
  hostInfo : Info
  policyRes : PolicyResult

def Launch.child (baseEnv : List Bytes) (l : Launch) : List Bytes :=
  (buildAutoTunedEnviron l.process l.selfPath baseEnv l.entry l.execMode l.hostInfo l.policyRes).1

/-- **Launches in a row tune once.**  A variable that is not metadata is passed on from the first
environment to the last; only a runtime setting the first one does not have may be added. -/
theorem launches_inherit (launches : List Launch) (baseEnv : List Bytes) (k : Bytes) :
    isMicrofatInternalEnv k = true ∨ inherited (launches.foldl Launch.child baseEnv) k = inherited baseEnv k ∨
      k ∈ runtimeEnvironmentKeys ∧ inherited baseEnv k = none := by
  cases external : isMicrofatInternalEnv k with
  | true => exact .inl rfl
  | false =>
    right
    induction launches generalizing baseEnv with
    | nil => exact .inl rfl
    | cons l launches ih =>
      -- one launch keeps what is there and offers runtime settings only
      have step : inherited (l.child baseEnv) k = (inherited baseEnv k).or
          ((launchOffer l.process baseEnv l.entry l.execMode k).map (envEntry k)) := by
        rw [Launch.child, buildAutoTunedEnviron_eq, inherited, childEnviron_built.indexed.lastOf_entries,
          childEnviron_find external]
      rw [List.foldl_cons]
      rcases ih (l.child baseEnv) with kept | ⟨setting, absent⟩
      · rw [kept, step]
        cases present : inherited baseEnv k with
        | some e => exact .inl rfl
        | none =>
          by_cases setting : k ∈ runtimeEnvironmentKeys
          · exact .inr ⟨setting, rfl⟩
          · left
            simp only [runtimeEnvironmentKeys, List.mem_cons, List.not_mem_nil, or_false, not_or] at setting
            rw [launchOffer]
            split
            · simp [offered, setting]
            · rfl
      · rw [step, Option.or_eq_none_iff] at absent
        exact .inr ⟨setting, absent.1⟩

/-! ## Turning collection off -/

/-- A plan made without a `GOMEMLIMIT` in sight comes from the profile alone. -/
theorem launchPlan_own {limits : Resources} {plan : TuningPlan}
    (planned : launchPlan p baseEnv entry execMode = some (limits, plan)) :
    ∃ policy profile liveHeap own, own = resolveTuningPlanWithProfile limits (p.getenv envMemRatio)
        Float64.defaultMemoryRatio defaultMinHeadroomBytes profile liveHeap ∧
      plan = match inherited baseEnv gomemlimit with
        | some e => (own.applyCPUPolicy policy).resolveBatchGOGC (runtimeMemoryLimit (envValue e))
        | none => own.applyCPUPolicy policy := by
  rw [launchPlan] at planned
  split at planned
  · cases planned
  · have found : (inheritEnv baseEnv).find gomemlimit = inherited baseEnv gomemlimit :=
      inheritEnv_find (runtimeEnvironmentKeys_external gomemlimit (by decide))
    rw [Option.some.injEq, resolveRuntimeTuning, found] at planned
    cases limit : inherited baseEnv gomemlimit with
    | some e =>
      rw [limit] at planned
      obtain ⟨rfl, rfl⟩ := Prod.mk.inj planned
      exact ⟨_, _, _, _, rfl, rfl⟩
    | none =>
      rw [limit] at planned
      obtain ⟨rfl, rfl⟩ := Prod.mk.inj planned
      exact ⟨_, _, _, _, rfl, rfl⟩

omit [CaseTable] in
theorem offered_gogc_off {plan : TuningPlan} (off : offered plan gogc = some (lit "off")) : plan.gogcStr = lit "off" := by
  rw [offered, if_neg (by decide), if_neg (by decide), if_pos rfl] at off
  split at off
  · exact Option.some.inj off
  · cases off

/-- **Collection is off only below a memory limit.**  The limit the child will run
under, inherited or planned, is a finite one. -/
theorem buildAutoTunedEnviron_collects
    (off : envEntry gogc (lit "off") ∈ (buildAutoTunedEnviron p selfPath baseEnv entry execMode hostInfo policyRes).1)
    (silent : ∀ e ∈ baseEnv, envKey e ≠ some gogc) :
    ∃ v, envEntry gomemlimit v ∈ (buildAutoTunedEnviron p selfPath baseEnv entry execMode hostInfo policyRes).1 ∧
      0 < runtimeMemoryLimit v := by
  have external := runtimeEnvironmentKeys_external
  have usable := runtimeEnvironmentKeys_usable
  have built : Built baseEnv _ (childEnviron p selfPath baseEnv entry execMode hostInfo policyRes) := childEnviron_built
  rw [buildAutoTunedEnviron_eq] at off ⊢
  -- the entry is an offer
  have offer : launchOffer p baseEnv entry execMode gogc = some (lit "off") := by
    have nothing : inherited baseEnv gogc = none := Table.lastOf_eq_none.mpr silent
    have found := built.indexed.find_eq_some.mpr ⟨off, (usable gogc (by decide)).envKey _⟩
    rw [childEnviron_find (external gogc (by decide)), nothing, Option.none_or, Option.map_eq_some_iff] at found
    obtain ⟨v, offer, same⟩ := found
    rw [offer, ← (usable gogc (by decide)).envValue v, same, (usable gogc (by decide)).envValue]
  have reached : ∀ e, (childEnviron p selfPath baseEnv entry execMode hostInfo policyRes).find gomemlimit = some e →
      envEntry gomemlimit (envValue e) ∈ (childEnviron p selfPath baseEnv entry execMode hostInfo policyRes).entries := by
    intro e found
    obtain ⟨mem, keyed⟩ := built.indexed.find_eq_some.mp found
    rwa [← (envKey_iff.mp keyed).2.2]
  rw [childEnviron_find (external gomemlimit (by decide))] at reached
  rw [launchOffer] at offer reached
  split at offer
  · rename_i limits plan planned enabled
    have text := offered_gogc_off offer
    obtain ⟨policy, profile, liveHeap, own, resolved, final⟩ := launchPlan_own planned
    have kept := applyCPUPolicy_memory own policy
    cases limit : inherited baseEnv gomemlimit with
    | some e =>
      rw [limit] at final reached
      refine ⟨envValue e, reached e rfl, ?_⟩
      rw [final] at text
      rcases resolveBatchGOGC_off text with ⟨-, positive, -⟩ | ⟨different, already⟩
      · exact positive
      · rw [(applyCPUPolicy_gogc own policy).2] at already
        rw [kept.gcProfile, plan_profile resolved] at different
        exact absurd (plan_off resolved already).1 different
    | none =>
      rw [limit] at final reached
      rw [final, (applyCPUPolicy_gogc own policy).2] at text
      have positive := (plan_off resolved text).2
      obtain ⟨small, limitText⟩ := plan_limit resolved positive
      have offer' : offered plan gomemlimit = some (decimalInt own.gomemlimitBytes.toInt ++ lit "B") := by
        rw [offered, if_pos rfl, final, kept.gomemlimitStr, limitText, if_pos (by simp [lit])]
      rw [planned, enabled] at reached
      have there := reached (envEntry gomemlimit (decimalInt own.gomemlimitBytes.toInt ++ lit "B")) (by
        dsimp only
        rw [offer']
        rfl)
      rw [(usable gomemlimit (by decide)).envValue] at there
      refine ⟨_, there, ?_⟩
      rw [runtimeMemoryLimit_bytes positive (by rw [maxInt64]; omega)]
      exact positive
  · cases offer

end

end

section

local instance environTable : CaseTable := CaseTable.ascii
local instance environFloats : Float64 := fractions

/-- A launcher below a ceiling of one GiB whose parent asks for the batch profile. -/
def batchProcess : Process where
  getenv k := if k = envGCProfile then lit "batch" else []
  abs _ := .error (.new "no working directory")
  cgroupLimits := (ceilingOf (1024 ^ 3) 0, none)
  pageSize := 4096

theorem buildAutoTunedEnviron_collects_batch :
    ∃ v, envEntry gomemlimit v ∈ (buildAutoTunedEnviron batchProcess [] [lit "PATH=/bin"]
        ⟨lit "v3", 0, 0, 0, [], []⟩ .cache ⟨lit "linux", lit "amd64", lit "v3", []⟩ ⟨lit "v3", [], []⟩).1 ∧
      0 < runtimeMemoryLimit v :=
  buildAutoTunedEnviron_collects (by decide +kernel) (by decide)

end

end Microfat.Launcher
