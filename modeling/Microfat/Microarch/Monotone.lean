/-
# Microfat.Microarch.Monotone — more features never select less

Selection compares a host with a list of levels; detection builds the host from CPU
features.  `select_mono` is the relational core: a host whose level is at least as
high and that supports at least as much selects a level of at least the same rank.
The downclocking cap can apply to the stronger host alone, but then the weaker host
was below the capped tier anyway.

* `detect_amd64`, `detect_arm64`: a larger feature set gives such a host;
* `levelHost_weaker`: so does the full host over the one `selectVariantWithPolicy`
  makes up from a level;
* `selection_monotone`: the two instances.
-/
import Microfat.Microarch.Closure

namespace Microfat.Microarch

open Theory

set_option autoImplicit false

section

variable [CaseTable] (S : SliceSort) (risk : Bool) (M : MapRange)

/-- The host `SelectVariantWithPolicy` makes up from a level: it has the features the
level guarantees.  A level outside the table guarantees none. -/
def levelHost (arch hostLevel : Bytes) : Info :=
  let features :=
    if equalFold arch archARM64 || equalFold arch (lit "aarch64") then
      M.order ((collectARM64Requirements (normalize hostLevel) []).getD [])
    else []
  ⟨[], arch, hostLevel, features⟩

def selectVariantWithPolicy (arch hostLevel : Bytes) (availableLevels : List Bytes)
    (policy : Policy) : Except Err PolicyResult :=
  selectVariantForHost S risk arch (levelHost M arch hostLevel) availableLevels policy

/-! ## Two hosts -/

/-- Two hosts of one architecture, the second at least as capable. -/
structure Stronger (arch : Bytes) (low high : Info) : Prop where
  known : KnownArch arch
  sameLow : canonicalArch arch = canonicalArch low.arch
  sameHigh : canonicalArch arch = canonicalArch high.arch
  lowKnown : 0 ≤ rank arch low.level
  level : rank arch low.level ≤ rank arch high.level
  supports : ∀ l, hostSupports low l = true → hostSupports high l = true

variable {arch : Bytes} {low high : Info} {available : List Bytes} {policy : Policy}

theorem Stronger.eligible (stronger : Stronger arch low high) {l : Bytes}
    (eligible : Eligible risk arch low policy l) : Eligible risk arch high policy l := by
  have below := eligible.host_rank
  refine ⟨eligible.tier, stronger.supports l eligible.supported, le_trans below stronger.level,
    eligible.max_level, ?_, eligible.enabled⟩
  rintro ⟨asked, amd, -, model⟩
  by_cases reached : rankAMD64v4 ≤ rank arch low.level
  · exact eligible.protection ⟨asked, amd, reached, model⟩
  · -- the weaker host is below the tier the cap is about
    have : rankAMD64v4 = 4 ∧ rankAMD64v3 = 3 := ⟨rfl, rfl⟩
    omega

/-- **A stronger host selects at least as much**, and the same under a forced level. -/
theorem select_mono (stronger : Stronger arch low high) (distinct : (available.map normalize).Nodup)
    {res : PolicyResult} (selected : selectVariantForHost S risk arch low available policy = .ok res) :
    ∃ res', selectVariantForHost S risk arch high available policy = .ok res' ∧
      rank arch res.selectedVariant ≤ rank arch res'.selectedVariant ∧
      (policy.forceLevel ≠ [] → res'.selectedVariant = res.selectedVariant) := by
  have highKnown : 0 ≤ rank arch high.level := le_trans stronger.lowKnown stronger.level
  by_cases forced : policy.forceLevel = []
  · obtain ⟨listed, eligible, -⟩ :=
      select_eligible S risk stronger.known stronger.sameLow stronger.lowKnown forced selected
    have eligible' := stronger.eligible risk eligible
    obtain ⟨res', selected'⟩ :=
      select_succeeds S risk stronger.known stronger.sameHigh highKnown forced listed eligible'
    obtain ⟨-, -, maximal⟩ :=
      select_eligible S risk stronger.known stronger.sameHigh highKnown forced selected'
    exact ⟨res', selected', maximal _ listed eligible', fun set => absurd forced set⟩
  · obtain ⟨supported, tier, below, lvl, found, rfl⟩ :=
      (forced_ok_iff S risk stronger.known stronger.sameLow stronger.lowKnown forced).mp selected
    have named : normalize lvl = normalize policy.forceLevel := by simpa using List.find?_some found
    obtain ⟨listed, supportedLow⟩ := List.mem_filter.mp (List.mem_of_find?_eq_some found)
    have present : lvl ∈ available.filter (hostSupports high) :=
      List.mem_filter.mpr ⟨listed, stronger.supports lvl supportedLow⟩
    cases found' : (available.filter (hostSupports high)).find?
        (fun lvl => normalize lvl = normalize policy.forceLevel) with
    | none => exact absurd (decide_eq_true named) (List.find?_eq_none.mp found' lvl present)
    | some lvl' =>
      have named' : normalize lvl' = normalize policy.forceLevel := by
        simpa using List.find?_some found'
      have listed' := (List.mem_filter.mp (List.mem_of_find?_eq_some found')).1
      obtain rfl := List.inj_on_of_nodup_map distinct listed' listed (named'.trans named.symm)
      exact ⟨_, (forced_ok_iff S risk stronger.known stronger.sameHigh highKnown forced).mpr
        ⟨stronger.supports _ supported, tier, le_trans below stronger.level, lvl', found', rfl⟩,
        le_refl _, fun _ => rfl⟩

/-! ## Hosts built by detection -/

theorem rank_amd64_tier (amd : canonicalArch arch = archAMD64) {tier : Bytes}
    (listed : tier ∈ amd64Ranks.map Prod.fst) : rank arch tier = amd64Rank tier := by
  rw [rank, rankTable_amd64 amd, normalize_tier (List.mem_append_left _ listed), amd64Rank]

theorem canonicalArch_amd64 : canonicalArch archAMD64 = archAMD64 := by
  rw [canonicalArch, toLower_ascii (by decide +kernel)]
  decide +kernel

/-- Supporting less is a matter of the level on AMD64. -/
theorem supports_amd64 (lowAmd : canonicalArch low.arch = archAMD64)
    (same : low.arch = high.arch) (level : rank low.arch low.level ≤ rank high.arch high.level)
    (l : Bytes) (supported : hostSupports low l = true) : hostSupports high l = true := by
  have other : canonicalArch low.arch ≠ archARM64 := by
    rw [lowAmd]
    decide
  rw [hostSupports, if_pos other, Bool.and_eq_true, decide_eq_true_eq, decide_eq_true_eq] at supported
  rw [hostSupports, if_pos (same ▸ other), Bool.and_eq_true, decide_eq_true_eq, decide_eq_true_eq,
    ← same]
  rw [← same] at level
  exact ⟨supported.1, le_trans supported.2 level⟩

/-- Supporting less is a matter of the features on ARM64. -/
theorem supports_arm64 (lowArm : canonicalArch low.arch = archARM64)
    (highArm : canonicalArch high.arch = archARM64) (features : low.features ⊆ high.features)
    (l : Bytes) (supported : hostSupports low l = true) : hostSupports high l = true := by
  rw [hostSupports_arm64 lowArm] at supported
  rw [hostSupports_arm64 highArm]
  obtain ⟨required, collected, all⟩ := supported
  exact ⟨required, collected, fun f mem => features (all f mem)⟩

theorem detect_amd64 (goos : Bytes) {f g : X86Features} {armF armG : ARM64Features}
    (contained : Contained f g) (amd : canonicalArch arch = archAMD64) :
    Stronger arch (detectForArch goos archAMD64 f armF) (detectForArch goos archAMD64 g armG) := by
  obtain ⟨monotone, tier⟩ := evaluateAMD64_mono contained
  have tier' := (evaluateAMD64_mono (f := g) (g := g) fun _ set => set).2
  have positive : ∀ t ∈ amd64Ranks.map Prod.fst, 0 ≤ amd64Rank t := by decide +kernel
  simp only [detectForArch, if_true]
  refine ⟨.inl amd, amd.trans canonicalArch_amd64.symm, amd.trans canonicalArch_amd64.symm, ?_, ?_, ?_⟩
  · rw [rank_amd64_tier amd tier]
    exact positive _ tier
  · rw [rank_amd64_tier amd tier, rank_amd64_tier amd tier']
    exact monotone
  · have level : rank archAMD64 (evaluateAMD64 f) ≤ rank archAMD64 (evaluateAMD64 g) := by
      rw [rank_amd64_tier canonicalArch_amd64 tier, rank_amd64_tier canonicalArch_amd64 tier']
      exact monotone
    intro l
    exact @supports_amd64 _ ⟨goos, archAMD64, evaluateAMD64 f, _⟩ ⟨goos, archAMD64, evaluateAMD64 g, _⟩
      canonicalArch_amd64 rfl level l

theorem detect_arm64 (goos : Bytes) {x86F x86G : X86Features} {f g : ARM64Features}
    (contained : Contained f g) (arm : canonicalArch arch = archARM64) :
    Stronger arch (detectForArch goos archARM64 x86F f) (detectForArch goos archARM64 x86G g) := by
  have tier := (evaluateARM64Detailed_spec f).tier
  have tier' := (evaluateARM64Detailed_spec g).tier
  have positive : ∀ t ∈ arm64OrderedLevels, 0 ≤ tierRank t := by decide +kernel
  have notAmd : archARM64 ≠ archAMD64 := by decide
  simp only [detectForArch, if_neg notAmd, if_true]
  refine ⟨.inr arm, arm.trans canonicalArch_arm64.symm, arm.trans canonicalArch_arm64.symm, ?_, ?_, ?_⟩
  · rw [rank_arm64_tier arm tier]
    exact positive _ tier
  · rw [rank_arm64_tier arm tier, rank_arm64_tier arm tier']
    exact evaluateARM64Detailed_mono contained
  · exact supports_arm64 canonicalArch_arm64 canonicalArch_arm64 (extractARM64FeatureList_mono contained)

/-! ## Hosts made up from a level -/

theorem levelHost_weaker (goos : Bytes) (x86 : X86Features) {f : ARM64Features}
    (fp : f .fp = true) (asimd : f .asimd = true) :
    Stronger archARM64 (levelHost M archARM64 (detectForArch goos archARM64 x86 f).level)
      (detectForArch goos archARM64 x86 f) := by
  have spec := evaluateARM64Detailed_spec f
  have positive : ∀ t ∈ arm64OrderedLevels, 0 ≤ tierRank t := by decide +kernel
  have notAmd : archARM64 ≠ archAMD64 := by decide
  have baseline : Satisfied f (lit "v8.0") := by
    refine @Satisfied.tier f _ ⟨lit "v8.0", [], [lit "fp", lit "asimd"]⟩ (by rfl) ?_ (by simp)
    simp [LevelRequirement.checkFeatures, arm64CheckFlags, fp, asimd]
  have satisfied : Satisfied f (evaluateARM64Detailed f).1 :=
    spec.satisfied.elim (fun base => base ▸ baseline) id
  simp only [detectForArch, if_neg notAmd, if_true]
  have folded : (equalFold archARM64 archARM64 || equalFold archARM64 (lit "aarch64")) = true := by
    decide +kernel
  refine ⟨.inr canonicalArch_arm64, rfl, rfl, ?_, le_refl _, ?_⟩
  · rw [levelHost]
    dsimp only
    rw [rank_arm64_tier canonicalArch_arm64 spec.tier]
    exact positive _ spec.tier
  · apply supports_arm64 canonicalArch_arm64 canonicalArch_arm64
    intro name mem
    rw [levelHost, if_pos folded] at mem
    rw [(M.perm _).mem_iff] at mem
    have all : ∀ t ∈ arm64OrderedLevels, t ∈ arm64Ranks.map Prod.fst := by decide +kernel
    rw [normalize_tier (List.mem_append_right _ (all _ spec.tier))] at mem
    cases collected : collectARM64Requirements (evaluateARM64Detailed f).1 [] with
    | none => rw [collected] at mem; cases mem
    | some required =>
      rw [collected, Option.getD_some] at mem
      obtain ⟨req, known⟩ := collectAt_known collected
      exact (collected_present_iff collected).mpr ((satisfied_iff known).mp satisfied) mem

/-- **Selection is monotone in the features, and selecting by level alone is
conservative.** -/
theorem selection_monotone (available : List Bytes) (policy : Policy)
    (distinct : (available.map normalize).Nodup) :
    (∀ (arch goos goarch : Bytes) (x86 x86' : X86Features) (arm arm' : ARM64Features),
      goarch = archAMD64 ∧ Contained x86 x86' ∨ goarch = archARM64 ∧ Contained arm arm' →
      canonicalArch arch = goarch → ∀ res,
      selectVariantForHost S risk arch (detectForArch goos goarch x86 arm) available policy = .ok res →
      ∃ res', selectVariantForHost S risk arch (detectForArch goos goarch x86' arm') available policy =
          .ok res' ∧
        rank arch res.selectedVariant ≤ rank arch res'.selectedVariant ∧
        (policy.forceLevel ≠ [] → res'.selectedVariant = res.selectedVariant)) ∧
    (∀ (goos : Bytes) (x86 : X86Features) (f : ARM64Features), f .fp = true → f .asimd = true → ∀ res,
      selectVariantWithPolicy S risk M archARM64 (detectForArch goos archARM64 x86 f).level available
        policy = .ok res →
      ∃ res', selectVariantForHost S risk archARM64 (detectForArch goos archARM64 x86 f) available policy =
          .ok res' ∧
        rank archARM64 res.selectedVariant ≤ rank archARM64 res'.selectedVariant) := by
  constructor
  · intro arch goos goarch x86 x86' arm arm' contained canonical res selected
    rcases contained with ⟨rfl, contained⟩ | ⟨rfl, contained⟩
    · exact select_mono S risk (detect_amd64 goos contained canonical) distinct selected
    · exact select_mono S risk (detect_arm64 goos contained canonical) distinct selected
  · intro goos x86 f fp asimd res selected
    obtain ⟨res', selected', higher, -⟩ :=
      select_mono S risk (levelHost_weaker M goos x86 fp asimd) distinct selected
    exact ⟨res', selected', higher⟩

end

section

local instance monotoneTable : CaseTable := CaseTable.ascii

/-- A host with the two baseline features, and one with everything: the level stays
within what was packed. -/
theorem selection_monotone_baseline :
    ∃ res', selectVariantForHost insertionSlice false archARM64
        (detectForArch (lit "linux") archARM64 (fun _ => false) (fun _ => true))
        [lit "v8.0", lit "v8.2"] ⟨[], [], [], [], false⟩ = .ok res' ∧
      rank archARM64 (lit "v8.0") ≤ rank archARM64 res'.selectedVariant := by
  have selected : selectVariantForHost insertionSlice false archARM64
      (detectForArch (lit "linux") archARM64 (fun _ => false)
        (fun flag => flag = .fp || flag = .asimd)) [lit "v8.0", lit "v8.2"] ⟨[], [], [], [], false⟩ =
      .ok ⟨lit "v8.0", [], []⟩ := by
    have decided : (selectVariantForHost insertionSlice false archARM64
        (detectForArch (lit "linux") archARM64 (fun _ => false)
          (fun flag => flag = .fp || flag = .asimd)) [lit "v8.0", lit "v8.2"]
        ⟨[], [], [], [], false⟩).toOption = some ⟨lit "v8.0", [], []⟩ := by decide +kernel
    exact except_ok_of_toOption decided
  obtain ⟨res', selected', higher, -⟩ :=
    (selection_monotone insertionSlice false MapRange.inserted [lit "v8.0", lit "v8.2"]
      ⟨[], [], [], [], false⟩ (by decide +kernel)).1 archARM64 (lit "linux") archARM64 (fun _ => false)
      (fun _ => false) (fun flag => flag = .fp || flag = .asimd) (fun _ => true)
      (.inr ⟨rfl, fun _ _ => rfl⟩) canonicalArch_arm64 _ selected
  exact ⟨res', selected', higher⟩

end

end Microfat.Microarch
