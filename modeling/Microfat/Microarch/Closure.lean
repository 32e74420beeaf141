/-
# Microfat.Microarch.Closure — the ARM64 evaluators agree

Three functions decide whether a feature set reaches a tier: the recursive check and its
cache, the scan that reports a status for every tier, and the feature names a host is
compared with.  `RequiredBy` is what they share: the names a tier asks for itself and,
through its prerequisites, those of the tiers below.

* `satisfied_iff`: the recursive check finds exactly the tiers whose names are all there;
* `collectAt_collects`: the walk of `collectARM64Requirements` collects exactly the names;
* `evaluators_agree`: the three answers are one, and both evaluators return the highest
  tier it is positive for.
-/
import Microfat.Microarch.Detect

namespace Microfat.Microarch

open Theory

set_option autoImplicit false

/-! ## What a tier requires -/

/-- The features of a tier and, transitively, of its prerequisites. -/
inductive RequiredBy : Bytes → Bytes → Prop
  | own {level name : Bytes} {req : LevelRequirement} (known : arm64Requirement level = some req)
      (mem : name ∈ req.requiredFeatures) : RequiredBy level name
  | prereq {level p name : Bytes} {req : LevelRequirement} (known : arm64Requirement level = some req)
      (mem : p ∈ req.prereqs) (below : RequiredBy p name) : RequiredBy level name

/-- The feature set has everything the tier requires. -/
def Complete (f : ARM64Features) (level : Bytes) : Prop :=
  ∀ name, RequiredBy level name → hasARM64NamedFeature name f = true

section

variable {f : ARM64Features} {level name : Bytes} {req : LevelRequirement}

theorem requiredBy_iff (known : arm64Requirement level = some req) :
    RequiredBy level name ↔ name ∈ req.requiredFeatures ∨ ∃ p ∈ req.prereqs, RequiredBy p name := by
  constructor
  · rintro (⟨known', mem⟩ | ⟨known', mem, below⟩)
    · obtain rfl := Option.some.inj (known.symm.trans known')
      exact .inl mem
    · obtain rfl := Option.some.inj (known.symm.trans known')
      exact .inr ⟨_, mem, below⟩
  · rintro (mem | ⟨p, mem, below⟩)
    · exact .own known mem
    · exact .prereq known mem below

theorem RequiredBy.listed (required : RequiredBy level name) :
    ∃ req ∈ arm64LevelRequirements, name ∈ req.requiredFeatures := by
  induction required with
  | own known mem => exact ⟨_, (requirement_listed known).1, mem⟩
  | prereq _ _ _ ih => exact ih

/-- Induction along the prerequisites, each of which is a tier of its own. -/
theorem tier_induction {motive : Bytes → Prop}
    (step : ∀ level req, arm64Requirement level = some req →
      (∀ p ∈ req.prereqs, tierIndex p < tierIndex level ∧ motive p) → motive level)
    (known : arm64Requirement level = some req) : motive level := by
  have tiers : ∀ req ∈ arm64LevelRequirements, ∀ p ∈ req.prereqs, (arm64Requirement p).isSome = true := by
    decide +kernel
  generalize index : tierIndex level = n
  induction n using Nat.strong_induction_on generalizing level req with
  | _ n ih =>
    subst index
    obtain ⟨listed, named⟩ := requirement_listed known
    refine step level req known fun p mem => ?_
    have earlier := prereqs_earlier req listed p mem
    rw [named] at earlier
    obtain ⟨below, found⟩ := Option.isSome_iff_exists.mp (tiers req listed p mem)
    exact ⟨earlier, ih _ earlier found rfl⟩

/-- **The recursive check asks for the transitive closure.** -/
theorem satisfied_iff (known : arm64Requirement level = some req) :
    Satisfied f level ↔ Complete f level := by
  refine tier_induction (motive := fun level => Satisfied f level ↔ Complete f level) ?_ known
  intro level req known below
  have own := checkFeatures_iff_named (f := f) (requirement_listed known).1
  constructor
  · rintro ⟨known', features, prereqs⟩ name required
    obtain rfl := Option.some.inj (known.symm.trans known')
    rcases (requiredBy_iff known).mp required with mem | ⟨p, mem, deeper⟩
    · exact own.mp features name mem
    · exact (below p mem).2.mp (prereqs p mem) name deeper
  · intro complete
    refine .tier known (own.mpr fun name mem => complete name (.own known mem)) fun p mem => ?_
    exact (below p mem).2.mpr fun name deeper => complete name (.prereq known mem deeper)

/-! ## The names collected -/

theorem mem_insertAll (names : List Bytes) : ∀ acc : List Bytes,
    name ∈ names.foldl (fun acc feature => acc.insert feature) acc ↔ name ∈ acc ∨ name ∈ names := by
  induction names with
  | nil => simp
  | cons head names ih =>
    intro acc
    rw [List.foldl_cons, ih, List.mem_insert_iff, List.mem_cons]
    tauto

/-- What a step that collects the names of one tier makes of the names so far. -/
def Collects (level : Bytes) (collect : List Bytes → Option (List Bytes)) : Prop :=
  ∀ acc, ∃ out, collect acc = some out ∧ ∀ name, name ∈ out ↔ name ∈ acc ∨ RequiredBy level name

theorem collect_prereqs (collect : List Bytes → Bytes → Option (List Bytes)) (prereqs : List Bytes)
    (each : ∀ p ∈ prereqs, Collects p (collect · p)) : ∀ acc, ∃ out,
      prereqs.foldlM collect acc = some out ∧
        ∀ name, name ∈ out ↔ name ∈ acc ∨ ∃ p ∈ prereqs, RequiredBy p name := by
  induction prereqs with
  | nil => exact fun acc => ⟨acc, rfl, by simp⟩
  | cons p rest ih =>
    intro acc
    rw [List.forall_mem_cons] at each
    obtain ⟨mid, first, here⟩ := each.1 acc
    obtain ⟨out, later, there⟩ := ih each.2 mid
    refine ⟨out, ?_, fun name => ?_⟩
    · rw [List.foldlM_cons, show collect acc p = some mid from first]
      exact later
    · rw [there, here, List.exists_mem_cons_iff, or_assoc]

/-- **The walk collects the transitive closure**, whatever was collected before. -/
theorem collectAt_collects (known : arm64Requirement level = some req) :
    ∀ depth, tierIndex level < depth → Collects level (collectAt depth level) := by
  refine tier_induction
    (motive := fun level => ∀ depth, tierIndex level < depth → Collects level (collectAt depth level))
    ?_ known
  intro level req known below depth deep acc
  cases depth with
  | zero => exact absurd deep (Nat.not_lt_zero _)
  | succ depth =>
    obtain ⟨gathered, walked, gathers⟩ :=
      collect_prereqs (fun acc p => collectAt depth p acc) req.prereqs
        (fun p mem => (below p mem).2 depth (by have := (below p mem).1; omega)) acc
    refine ⟨req.requiredFeatures.foldl (fun acc feature => acc.insert feature) gathered, ?_, fun name => ?_⟩
    · rw [collectAt, known]
      simp only [Option.bind_eq_bind, Option.bind_some, walked]
      rfl
    · rw [mem_insertAll, gathers, requiredBy_iff known, or_assoc,
        or_comm (b := name ∈ req.requiredFeatures)]

/-! ## The names of a host -/

/-- A host lists a required name exactly when the field of that name is set. -/
theorem mem_extract_iff (listed : req ∈ arm64LevelRequirements) (mem : name ∈ req.requiredFeatures) :
    name ∈ extractARM64FeatureList f ↔ hasARM64NamedFeature name f = true := by
  have tables : ∀ req ∈ arm64LevelRequirements, ∀ name ∈ req.requiredFeatures,
      ((simdNames ++ cryptoNames ++ coreNames).filter fun entry => entry.2 = name) =
        ((arm64NamedFlags.lookup name).map fun flag => (flag, name)).toList := by decide +kernel
  have table := tables req listed name mem
  have extract : extractARM64FeatureList f = featureList (simdNames ++ cryptoNames ++ coreNames) f := by
    simp only [extractARM64FeatureList, appendCoreFeatureList, appendCryptoFeatureList,
      appendSIMDFeatureList, List.nil_append, featureList, List.filter_append, List.map_append]
  have entries : ∀ flag, (flag, name) ∈ simdNames ++ cryptoNames ++ coreNames ↔
      arm64NamedFlags.lookup name = some flag := by
    intro flag
    have filtered : (flag, name) ∈ simdNames ++ cryptoNames ++ coreNames ↔
        (flag, name) ∈ (simdNames ++ cryptoNames ++ coreNames).filter fun entry => entry.2 = name := by
      rw [List.mem_filter]
      simp
    rw [filtered, table]
    simp
  rw [extract, featureList, hasARM64NamedFeature]
  constructor
  · intro present
    obtain ⟨⟨flag, _⟩, inside, rfl⟩ := List.mem_map.mp present
    rw [List.mem_filter] at inside
    rw [(entries flag).mp inside.1]
    exact inside.2
  · intro has
    cases found : arm64NamedFlags.lookup name with
    | none =>
      rw [found] at has
      cases has
    | some flag =>
      rw [found] at has
      exact List.mem_map.mpr ⟨(flag, name), List.mem_filter.mpr ⟨(entries flag).mpr found, has⟩, rfl⟩

/-- The names collected for a tier are names of the host exactly when the tier is complete. -/
theorem collected_present_iff {required : List Bytes}
    (collected : collectARM64Requirements level [] = some required) :
    required ⊆ extractARM64FeatureList f ↔ Complete f level := by
  obtain ⟨req, known⟩ := collectAt_known collected
  obtain ⟨out, same, names⟩ := collectAt_collects known requirementDepth (tierIndex_lt_depth level) []
  obtain rfl := Option.some.inj (collected.symm.trans same)
  constructor
  · intro present name needed
    obtain ⟨req, listed, mem⟩ := needed.listed
    exact (mem_extract_iff listed mem).mp (present ((names name).mpr (.inr needed)))
  · intro complete name mem
    have needed := ((names name).mp mem).resolve_left (by simp)
    obtain ⟨req, listed, own⟩ := needed.listed
    exact (mem_extract_iff listed own).mpr (complete name needed)

/-- The baseline is below every tier. -/
theorem Satisfied.baseline (satisfied : Satisfied f level) : Satisfied f (lit "v8.0") := by
  have bottom : ∀ req ∈ arm64LevelRequirements, req.prereqs = [] → req.level = lit "v8.0" := by
    decide +kernel
  induction satisfied with
  | @tier level req known features prereqs ih =>
    obtain ⟨listed, named⟩ := requirement_listed known
    cases below : req.prereqs with
    | nil =>
      rw [← bottom req listed below, named]
      exact .tier known features prereqs
    | cons p rest => exact ih p (by simp [below])

end

/-! ## One answer -/

section

variable [CaseTable]

theorem rank_arm64_tier {arch : Bytes} (arm : canonicalArch arch = archARM64) {tier : Bytes}
    (listed : tier ∈ arm64OrderedLevels) : rank arch tier = tierRank tier := by
  have all : ∀ t ∈ arm64OrderedLevels, t ∈ arm64Ranks.map Prod.fst := by decide +kernel
  rw [rank, rankTable_arm64 arm, normalize_tier (List.mem_append_right _ (all tier listed)), tierRank]

theorem canonicalArch_arm64 : canonicalArch archARM64 = archARM64 := by
  rw [canonicalArch, toLower_ascii (by decide +kernel)]
  decide +kernel

/-- What the functions say about the tier of a status, and what it means. -/
structure Agree (f : ARM64Features) (host : Info) (status : ARM64LevelStatus) : Prop where
  check : ∀ extra,
    (checkARM64LevelSatisfied f (requirementDepth + extra) status.level [] []).1 = status.satisfied
  supports : hostSupports host status.level = status.satisfied
  closure : status.satisfied = true ↔ Complete f status.level

theorem agree_of_right {f : ARM64Features} {host : Info} {status : ARM64LevelStatus}
    (arm : canonicalArch host.arch = archARM64) (features : host.features = extractARM64FeatureList f)
    (tier : status.level ∈ arm64LevelRequirements.map LevelRequirement.level) (right : status.Right f) :
    Agree f host status := by
  have names : ∀ level ∈ arm64LevelRequirements.map LevelRequirement.level,
      (arm64Requirement level).isSome = true ∧ level ∈ arm64Ranks.map Prod.fst := by decide +kernel
  obtain ⟨found, ranked⟩ := names _ tier
  obtain ⟨req, known⟩ := Option.isSome_iff_exists.mp found
  have closure := right.trans (satisfied_iff known)
  refine ⟨fun extra => ?_, ?_, closure⟩
  · have deep := tierIndex_lt_depth status.level
    have answer := (checkARM64LevelSatisfied_spec (f := f) (requirementDepth + extra) status.level [] []
      (by omega) (fun _ _ found => by cases found) (by simp)).1
    exact Bool.eq_iff_iff.mpr (answer.trans right.symm)
  · obtain ⟨required, collected, -⟩ :=
      collectAt_collects known requirementDepth (tierIndex_lt_depth status.level) []
    have collects : collectARM64Requirements status.level [] = some required := collected
    rw [Bool.eq_iff_iff, closure, hostSupports_arm64 arm, features,
      normalize_tier (List.mem_append_right _ ranked), collects, ← collected_present_iff collects]
    simp [List.subset_def]

/-- **The ARM64 evaluators agree.**  Every tier of the table has a status; each status, the
recursive check and the host's support are the same answer, that the closure of the tier is
in the feature set; and both evaluators return the highest tier with that answer, or the
baseline when there is none. -/
theorem evaluators_agree (f : ARM64Features) (host : Info) (arm : canonicalArch host.arch = archARM64)
    (features : host.features = extractARM64FeatureList f) :
    (∀ req ∈ arm64LevelRequirements,
      ∃ status ∈ (evaluateARM64Detailed f).2, status.level = req.level) ∧
    (∀ status ∈ (evaluateARM64Detailed f).2, Agree f host status) ∧
    evaluateARM64 f = (evaluateARM64Detailed f).1 ∧
    ((Complete f (evaluateARM64Detailed f).1 ∧ ∀ req ∈ arm64LevelRequirements, Complete f req.level →
        rank archARM64 req.level ≤ rank archARM64 (evaluateARM64Detailed f).1) ∨
      (evaluateARM64Detailed f).1 = lit "v8.0" ∧ ∀ req ∈ arm64LevelRequirements, ¬ Complete f req.level) := by
  have tables : (∀ req ∈ arm64LevelRequirements,
      (arm64Requirement req.level).isSome = true ∧ req.level ∈ arm64OrderedLevels) ∧
      ∀ l ∈ arm64OrderedLevels, l ∈ arm64LevelRequirements.map LevelRequirement.level := by
    decide +kernel
  have meaning : ∀ req ∈ arm64LevelRequirements, (Satisfied f req.level ↔ Complete f req.level) := by
    intro req listed
    obtain ⟨own, known⟩ := Option.isSome_iff_exists.mp (tables.1 req listed).1
    exact satisfied_iff known
  obtain ⟨⟨levels, right⟩, -⟩ := evaluateARM64Detailed_fold f
  have detected := evaluateARM64Detailed_spec f
  refine ⟨fun req listed => ?_, fun status mem => ?_, (evaluateARM64_spec f).unique detected, ?_⟩
  · have named := (tables.1 req listed).2
    rw [← levels] at named
    exact List.mem_map.mp named
  · refine agree_of_right arm features (tables.2 _ ?_) (right status mem)
    rw [← levels]
    exact List.mem_map_of_mem mem
  · by_cases any : ∃ req ∈ arm64LevelRequirements, Complete f req.level
    · obtain ⟨req, listed, complete⟩ := any
      have base := ((meaning req listed).mpr complete).baseline
      have satisfied := detected.satisfied.elim (fun same => same ▸ base) id
      obtain ⟨top, known, named⟩ := List.mem_map.mp (tables.2 _ detected.tier)
      refine .inl ⟨?_, fun other listed complete => ?_⟩
      · rw [← named] at satisfied ⊢
        exact (meaning top known).mp satisfied
      · rw [rank_arm64_tier canonicalArch_arm64 (tables.1 other listed).2,
          rank_arm64_tier canonicalArch_arm64 detected.tier]
        exact detected.highest _ ((meaning other listed).mpr complete)
    · have none : ∀ req ∈ arm64LevelRequirements, ¬ Complete f req.level :=
        fun req listed complete => any ⟨req, listed, complete⟩
      refine .inr ⟨detected.satisfied.elim id fun satisfied => ?_, none⟩
      obtain ⟨req, listed, named⟩ := List.mem_map.mp (tables.2 _ detected.tier)
      rw [← named] at satisfied
      exact absurd ((meaning req listed).mp satisfied) (none req listed)

end

section

local instance closureTable : CaseTable := CaseTable.ascii

/-- A CPU with the baseline and the v8.1 features. -/
theorem evaluators_agree_atomics :
    evaluateARM64 (fun flag => flag ∈ [.fp, .asimd, .atomics, .crc32]) = lit "v8.1" ∧
      evaluateARM64 (fun flag => flag ∈ [.fp, .asimd, .atomics, .crc32]) =
        (evaluateARM64Detailed fun flag => flag ∈ [.fp, .asimd, .atomics, .crc32]).1 :=
  ⟨by decide +kernel, (evaluators_agree (fun flag => flag ∈ [.fp, .asimd, .atomics, .crc32])
    ⟨lit "linux", archARM64, lit "v8.1",
      extractARM64FeatureList fun flag => flag ∈ [.fp, .asimd, .atomics, .crc32]⟩
    canonicalArch_arm64 rfl).2.2.1⟩

end

end Microfat.Microarch
