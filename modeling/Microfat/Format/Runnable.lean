/-
# Microfat.Format.Runnable — accepted indexes and the selection of a variant

The bounds validator and the selection look at the same two strings of an index, the
target architecture and the level of a variant, and normalise them separately.

* `selected_unique`: whatever level a selection over an accepted index returns,
  exactly one variant carries it, `findVariant` finds that one, the host supports
  it, and no other variant shares its normal form.
* `runnable_iff`: an accepted index is runnable on its architecture exactly when its
  target architecture carries no white space.  The validator trims the architecture
  before it compares; `rank` and `canonicalArch` do not, and `rank` then falls back
  to its one-tier table.
-/
import Microfat.Format.Layout
import Microfat.Microarch.Select

namespace Microfat.Format

open Theory Microarch

set_option autoImplicit false

section

variable [CaseTable]

/-! ## The selected entry -/

variable {arch : Bytes} {available : List Bytes} {res : PolicyResult} {host : Info}

theorem resolveForcedVariant_mem {hostRank : Int} {hostLevel : Bytes} {forceLevel : Bytes}
    (resolved : resolveForcedVariant arch hostRank hostLevel available forceLevel = .ok res) :
    res.selectedVariant ∈ available := by
  rw [resolveForcedVariant] at resolved
  split_ifs at resolved
  split at resolved
  · rename_i lvl found
    cases resolved
    exact List.mem_of_find?_eq_some found
  · cases resolved

theorem selectCompatibleVariant_mem {S : SliceSort} {risk : Bool} {hostLevel : Bytes} {policy : Policy}
    (selected : selectCompatibleVariant S risk arch hostLevel available policy = .ok res) :
    res.selectedVariant ∈ available := by
  rw [selectCompatibleVariant] at selected
  dsimp only at selected
  split_ifs at selected
  · exact resolveForcedVariant_mem selected
  · split at selected
    · cases selected
    · rename_i best rest sorted
      cases selected
      have candidate : best ∈ filterAndRankCandidates arch _ _ available _ :=
        S.mem_sort.mp (sorted ▸ List.mem_cons_self)
      obtain ⟨level, listed, kept⟩ := List.mem_filterMap.mp candidate
      dsimp only at kept
      split_ifs at kept
      cases kept
      exact listed

/-- A selection returns one of the levels it was given, and one the host supports. -/
theorem selectVariantForHost_mem {S : SliceSort} {risk : Bool} {policy : Policy}
    (selected : selectVariantForHost S risk arch host available policy = .ok res) :
    res.selectedVariant ∈ available ∧ hostSupports host res.selectedVariant = true := by
  rw [selectVariantForHost] at selected
  dsimp only at selected
  split_ifs at selected
  exact List.mem_filter.mp (selectCompatibleVariant_mem selected)

/-- **The selected level names one entry.** -/
theorem selected_unique (S : SliceSort) (risk : Bool) (idx : Index) (o : Int64) (host : Info)
    (policy : Policy) (res : PolicyResult) (accepted : validateBounds idx o = .ok ())
    (selected : selectVariantForHost S risk idx.targetArch host idx.variantLevels policy = .ok res) :
    ∃ before v after, idx.variants = before ++ v :: after ∧ v.level = res.selectedVariant ∧
      idx.findVariant res.selectedVariant = some v ∧ hostSupports host v.level = true ∧
      ∀ u ∈ before ++ after, Microarch.normalize u.level ≠ Microarch.normalize res.selectedVariant ∧
        u.level ≠ res.selectedVariant := by
  obtain ⟨listed, supported⟩ := selectVariantForHost_mem selected
  obtain ⟨v, mem, named⟩ := List.mem_map.mp listed
  obtain ⟨lastEnd, -, laidOut⟩ := validateBounds_variants accepted
  obtain ⟨before, after, split⟩ := List.append_of_mem mem
  have distinct := laidOut.levels
  rw [List.reverse_nil, List.nil_append, split, List.map_append, List.map_cons, List.nodup_append,
    List.nodup_cons] at distinct
  obtain ⟨-, ⟨notAfter, -⟩, apart⟩ := distinct
  have other : ∀ u ∈ before ++ after, Microarch.normalize u.level ≠ Microarch.normalize v.level := by
    intro u inside same
    rcases List.mem_append.mp inside with left | right
    · exact apart _ (List.mem_map_of_mem left) _ List.mem_cons_self same
    · exact notAfter (List.mem_map.mpr ⟨u, right, same⟩)
  refine ⟨before, v, after, split, named, ?_, named ▸ supported, fun u inside => ?_⟩
  · rw [Index.findVariant, List.find?_eq_some_iff_append]
    refine ⟨by simp [named], before, after, split, fun u inside => ?_⟩
    simpa [← named] using other u (List.mem_append_left after inside)
  · rw [← named]
    exact ⟨other u inside, fun same => other u inside (by rw [same])⟩

/-! ## Runnable indexes -/

/-- The tier names of a canonical architecture. -/
def tierNames (arch : Bytes) : List Bytes :=
  if arch = archAMD64 then amd64Ranks.map Prod.fst
  else if arch = archARM64 then arm64Ranks.map Prod.fst
  else []

/-- A host of the architecture with its highest level and every feature. -/
structure FullHost (arch : Bytes) (host : Info) : Prop where
  arch : canonicalArch host.arch = arch
  highest : ∀ tier ∈ rankTable host.arch, tier.2 ≤ rank host.arch host.level
  features : ∀ req ∈ arm64LevelRequirements, ∀ f ∈ req.requiredFeatures, f ∈ host.features

/-- The policy of an empty environment. -/
def noPolicy : Policy := ⟨[], [], [], [], false⟩

/-- The index targets one of the two architectures, all its levels are tiers of that
one, and a full host of that architecture can run it. -/
structure Runnable (S : SliceSort) (risk : Bool) (idx : Index) : Prop where
  known : KnownArch idx.targetArch
  tiers : ∀ v ∈ idx.variants, ∀ arch, arch = archAMD64 ∨ arch = archARM64 →
    (Microarch.normalize v.level ∈ tierNames arch ↔ arch = canonicalArch idx.targetArch)
  runs : ∀ host, FullHost (canonicalArch idx.targetArch) host →
    ∃ res, selectVariantForHost S risk idx.targetArch host idx.variantLevels noPolicy = .ok res

/-- For an architecture the validator accepts, the other functions know it exactly
when there is nothing to trim. -/
theorem knownArch_iff_trimmed
    (accepted : toLower (trimSpace arch) = archAMD64 ∨ toLower (trimSpace arch) = archARM64) :
    KnownArch arch ↔ trimSpace arch = arch := by
  constructor
  · intro known
    obtain ⟨left, right, whole, kept⟩ := toLower_trimSpace arch
    -- the accepted name is inside the lower-cased one; only the name itself has room for it
    have named : toLower arch ∈ amd64Names ++ arm64Names := by
      unfold KnownArch canonicalArch at known
      dsimp only at known
      split_ifs at known with aarch x86
      · rw [aarch]; decide
      · rcases x86 with h | h <;> rw [h] <;> decide
      · rcases known with h | h <;> rw [h] <;> decide
    have inside : toLower (trimSpace arch) <:+: toLower arch := ⟨left, right, whole.symm⟩
    have same : toLower arch = toLower (trimSpace arch) := by
      have exact : ∀ a ∈ [archAMD64, archARM64], ∀ name ∈ amd64Names ++ arm64Names,
          a <:+: name → name = a := by decide +kernel
      exact exact _ (by simpa using accepted) _ named inside
    have sizes := congrArg List.length whole
    rw [same, List.length_append, List.length_append] at sizes
    exact kept (List.eq_nil_of_length_eq_zero (by omega)) (List.eq_nil_of_length_eq_zero (by omega))
  · intro trimmed
    rw [trimmed] at accepted
    unfold KnownArch canonicalArch
    dsimp only
    rcases accepted with h | h <;> rw [h] <;> decide

theorem rankTable_tierNames (known : KnownArch arch) :
    (rankTable arch).map Prod.fst = tierNames (canonicalArch arch) := by
  rcases known with amd | arm
  · rw [rankTable_amd64 amd, amd, tierNames, if_pos rfl]
  · rw [rankTable_arm64 arm, arm, tierNames, if_neg (by decide), if_pos rfl]

omit [CaseTable] in
/-- The tiers of the two architectures have no name in common. -/
theorem tierNames_disjoint {name a b : Bytes} (ha : a = archAMD64 ∨ a = archARM64)
    (hb : b = archAMD64 ∨ b = archARM64) (first : name ∈ tierNames a) (second : name ∈ tierNames b) :
    a = b := by
  have apart : ∀ t ∈ tierNames archAMD64, t ∉ tierNames archARM64 := by decide +kernel
  rcases ha with rfl | rfl <;> rcases hb with rfl | rfl
  · rfl
  · exact absurd second (apart name first)
  · exact absurd first (apart name second)
  · rfl

section

variable (full : FullHost (canonicalArch arch) host) (known : KnownArch arch)

include full known

/-- No tier is above the level of a full host. -/
theorem FullHost.rank_le {level : Bytes} (tier : 0 ≤ rank arch level) :
    rank arch level ≤ rank arch host.level := by
  have table : rankTable arch = rankTable host.arch := by
    rcases known with amd | arm
    · rw [rankTable_amd64 amd, rankTable_amd64 (full.arch.trans amd)]
    · rw [rankTable_arm64 arm, rankTable_arm64 (full.arch.trans arm)]
  rw [rank_congr known full.arch.symm host.level]
  exact full.highest _ (table ▸ rank_mem tier)

theorem FullHost.supports {level : Bytes} (tier : 0 ≤ rank arch level) :
    hostSupports host level = true := by
  rcases known with amd | arm
  · have other : canonicalArch host.arch ≠ archARM64 := by
      rw [full.arch, amd]
      decide
    have bound := full.rank_le (.inl amd) tier
    rw [rank_congr (.inl amd) full.arch.symm, rank_congr (.inl amd) full.arch.symm] at bound
    rw [rank_congr (.inl amd) full.arch.symm] at tier
    simp [hostSupports, if_pos other, tier, bound]
  · rw [hostSupports_arm64 (full.arch.trans arm)]
    have named := rank_tier tier
    rw [rankTable_arm64 arm] at named
    have complete : ∀ t ∈ arm64Ranks.map Prod.fst, (collectARM64Requirements t []).any
        (·.all (· ∈ arm64LevelRequirements.flatMap (·.requiredFeatures))) = true := by decide +kernel
    have covered := complete _ named
    rw [Option.any_eq_true] at covered
    obtain ⟨required, collected, all⟩ := covered
    refine ⟨required, collected, fun f mem => ?_⟩
    have listed := List.all_eq_true.mp all f mem
    rw [decide_eq_true_eq, List.mem_flatMap] at listed
    obtain ⟨req, inside, needed⟩ := listed
    exact full.features req inside f needed

end

/-- **An accepted index is runnable exactly when its architecture is trimmed.** -/
theorem runnable_iff [LawfulCase] (S : SliceSort) (risk : Bool) (idx : Index) (o : Int64)
    (accepted : validateBounds idx o = .ok ()) :
    Runnable S risk idx ↔ trimSpace idx.targetArch = idx.targetArch := by
  obtain ⟨lastEnd, ok⟩ := validateBounds_ok accepted
  rw [← knownArch_iff_trimmed ok.arch]
  refine ⟨Runnable.known, fun known => ?_⟩
  have tier : ∀ v ∈ idx.variants, 0 ≤ rank idx.targetArch v.level := by
    intro v mem
    obtain ⟨_, _, _, _, checked⟩ := validateVariantsFrom_mem ok.variants v mem
    have positive := checked.tier
    rw [rank, normalize_idem] at positive
    exact Int.le_of_lt positive
  refine ⟨known, fun v mem arch canonical => ?_, fun host full => ?_⟩
  · have named : Microarch.normalize v.level ∈ tierNames (canonicalArch idx.targetArch) := by
      rw [← rankTable_tierNames known]
      exact rank_tier (tier v mem)
    constructor
    · exact fun other => tierNames_disjoint canonical known other named
    · rintro rfl
      exact named
  · obtain ⟨v, mem⟩ := List.exists_mem_of_ne_nil _ ok.nonempty
    have below := full.rank_le known (tier v mem)
    have eligible : Eligible risk idx.targetArch host noPolicy v.level := by
      refine ⟨tier v mem, full.supports known (tier v mem), below, fun set => absurd rfl set, ?_, by
        simp [noPolicy]⟩
      rintro ⟨asked, -⟩
      exact absurd asked (by decide)
    exact select_succeeds S risk known full.arch.symm (le_trans (tier v mem) below) rfl
      (List.mem_map_of_mem mem) eligible

end

section

local instance runnableTable : CaseTable := CaseTable.ascii

/-- Of the two variants of the sample a host of the third level runs the second. -/
theorem selected_unique_sample : ∃ before v after, (canonicalIndex sampleIndex).variants = before ++ v :: after ∧
    v.level = lit "v3" ∧ (canonicalIndex sampleIndex).findVariant (lit "v3") = some v ∧
    hostSupports sampleHost v.level = true ∧
    ∀ u ∈ before ++ after, Microarch.normalize u.level ≠ Microarch.normalize (lit "v3") ∧ u.level ≠ lit "v3" :=
  selected_unique insertionSlice false _ 10 sampleHost noPolicy ⟨lit "v3", [], []⟩
    (Eval.eq_ok_of_toOption (by decide +kernel)) (except_ok_of_toOption (by decide +kernel))

/-- One variant at the baseline level, for the architecture `arch`. -/
def baselineIndex (arch : Bytes) : Index :=
  { version := 2, appName := lit "app", targetOS := lit "linux", targetArch := arch,
    createdUnix := 0, dictionaryOffset := 0, dictionarySize := 0, dictionarySHA256 := [],
    dictionaryID := 0,
    variants := [⟨lit "amd64_v1", 1, 1, 7, List.replicate 64 97, lit "zstd"⟩] }

/-- A blank before the architecture passes the validator, but the architecture is
then not known. -/
theorem runnable_blank_fails :
    validateBounds (baselineIndex (lit " amd64")) 2 = .ok () ∧
      ¬ Runnable insertionSlice false (baselineIndex (lit " amd64")) := by
  refine ⟨Eval.eq_ok_of_toOption (by decide +kernel), fun runnable => ?_⟩
  have unknown : ¬ KnownArch (lit " amd64") := by
    unfold KnownArch
    decide +kernel
  exact unknown runnable.known

theorem runnable_baseline : Runnable insertionSlice false (baselineIndex (lit "amd64")) :=
  (@runnable_iff _ lawfulCase_ascii insertionSlice false (baselineIndex (lit "amd64")) 2
    (Eval.eq_ok_of_toOption (by decide +kernel))).mpr (by decide +kernel)

end

end Microfat.Format
