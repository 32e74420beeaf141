/-
# Microfat.Microarch.Select — variant selection under a policy

`selectVariantForHost` filters the available levels by what the host supports,
caps the rank by the policy and the CPU model, drops disabled levels and takes
the highest rank.  The filter and the cap live in four functions and each works
on its own normalisation of the level; `Eligible` is the one predicate they
amount to.

* `candidate_iff`: the candidates are exactly the eligible levels;
* `selectVariantForHost_spec`: without a forced level, selection succeeds exactly
  when some level is eligible and returns the unique eligible level of maximal
  rank, whatever the order of the list and however the sort breaks ties; with a
  forced level, exactly when that tier is known, supported, not above the host
  and available.

The host's support for a level pins its normal form to a tier of the table
(`supports_normal`), so normalising a second time changes nothing there.
-/
import Microfat.Theory.Sorting
import Microfat.Microarch.Levels

namespace Microfat.Microarch

open Theory

set_option autoImplicit false

structure Policy where
  name : Bytes
  forceLevel : Bytes
  maxLevel : Bytes
  disabledVariants : List Bytes
  avx512DownclockProtection : Bool

structure PolicyResult where
  selectedVariant : Bytes
  policyApplied : Bytes
  overrideReason : Bytes
  deriving DecidableEq

def policySafeAVX512 : Bytes := lit "safe_avx512"
def policyNoDownclock : Bytes := lit "no_downclock"

structure VariantCandidate where
  original : Bytes
  norm : Bytes
  rank : Int

/-- `strings.Join(parts, sep)`. -/
def join (sep : Bytes) : List Bytes → Bytes
  | [] => []
  | [part] => part
  | part :: parts => part ++ sep ++ join sep parts

section

variable [CaseTable]

/-- The cap, the policy that set it and its reason.  `risk` is the answer of
`isSkylakeXOrCascadeLakeFunc`. -/
def computeEffectiveMaxRank (risk : Bool) (arch : Bytes) (hostRank : Int) (policy : Policy) :
    Int × Bytes × Bytes :=
  let maxRank := rank arch (normalize policy.maxLevel)
  let capped : Int × Bytes × Bytes :=
    if policy.maxLevel ≠ [] ∧ 0 ≤ maxRank ∧ maxRank < hostRank then
      (maxRank, lit "max_level", lit "MICROFAT_MAX_LEVEL=" ++ policy.maxLevel)
    else (hostRank, [], [])
  let isSafeAVX512 := policy.avx512DownclockProtection ||
    policy.name == policySafeAVX512 || policy.name == policyNoDownclock
  if isSafeAVX512 ∧ canonicalArch arch = archAMD64 ∧ rankAMD64v4 ≤ hostRank ∧ risk ∧
      rankAMD64v3 < capped.1 then
    (rankAMD64v3, lit "avx512_downclock_protection",
      lit "Intel Skylake-X/Cascade Lake AVX-512 downclocking protection applied (capped at v3)")
  else capped

def buildDisabledSet (disabled : List Bytes) : List Bytes := disabled.map normalize

def filterAndRankCandidates (arch : Bytes) (hostRank effectiveMaxRank : Int)
    (availableLevels disabledSet : List Bytes) : List VariantCandidate :=
  availableLevels.filterMap fun lvl =>
    let norm := normalize lvl
    let r := rank arch norm
    if r < 0 ∨ r > hostRank ∨ r > effectiveMaxRank then none
    else if norm ∈ disabledSet then none
    else some ⟨lvl, norm, r⟩

def resolveForcedVariant (arch : Bytes) (hostRank : Int) (hostLevel : Bytes)
    (availableLevels : List Bytes) (forceLevel : Bytes) : Except Err PolicyResult :=
  let normForced := normalize forceLevel
  let forcedRank := rank arch normForced
  if forcedRank < 0 then
    .error (.about .errIncompatibleForcedVariant [.text "unknown variant level ", .quoted forceLevel])
  else if 0 ≤ hostRank ∧ hostRank < forcedRank then
    .error (.about .errIncompatibleForcedVariant
      [.text "forced variant ", .str normForced, .text " (rank ", .int forcedRank,
       .text ") exceeds host CPU ", .str arch, .text " ", .str hostLevel, .text " (rank ",
       .int hostRank, .text ")"])
  else match availableLevels.find? fun lvl => normalize lvl = normForced with
    | some lvl => .ok ⟨lvl, lit "force_level", lit "MICROFAT_FORCE_LEVEL=" ++ forceLevel⟩
    | none => .error (.about .errVariantNotEmbedded
        [.str forceLevel, .text " (available: ", .strs availableLevels, .text ")"])

/-- The `PolicyApplied` and `OverrideReason` of a selection without a forced level. -/
def selectionNotes (risk : Bool) (arch : Bytes) (hostRank : Int) (policy : Policy) :
    Bytes × Bytes :=
  let (_, applied, reason) := computeEffectiveMaxRank risk arch hostRank policy
  if buildDisabledSet policy.disabledVariants ≠ [] ∧ applied = [] then
    (lit "disable_variants",
      lit "MICROFAT_DISABLE_VARIANTS=" ++ join (lit ",") policy.disabledVariants)
  else (applied, reason)

variable (S : SliceSort) (risk : Bool)

def selectCompatibleVariant (arch hostLevel : Bytes) (availableLevels : List Bytes)
    (policy : Policy) : Except Err PolicyResult :=
  if availableLevels = [] then .error (.sentinel .errEmptyVariants)
  else
    let hostRank := rank arch hostLevel
    if policy.forceLevel ≠ [] then
      resolveForcedVariant arch hostRank hostLevel availableLevels policy.forceLevel
    else if hostRank < 0 then
      .error (.errorf [.text "unknown host level ", .quoted hostLevel,
        .text " for target architecture ", .str arch] [] [])
    else
      let effectiveMaxRank := (computeEffectiveMaxRank risk arch hostRank policy).1
      let (applied, reason) := selectionNotes risk arch hostRank policy
      let candidates := filterAndRankCandidates arch hostRank effectiveMaxRank availableLevels
        (buildDisabledSet policy.disabledVariants)
      match S.sort (fun a b => decide (a.rank > b.rank)) candidates with
      | [] => .error (.wrap
          [.cause, .text " (host: ", .str arch, .text " ", .str hostLevel, .text ", available: ",
           .strs availableLevels, .text ")"] [.sentinel .errNoMatchingVariant])
      | best :: _ => .ok ⟨best.original, applied, reason⟩

def selectVariantForHost (arch : Bytes) (host : Info) (availableLevels : List Bytes)
    (policy : Policy) : Except Err PolicyResult :=
  if canonicalArch arch ≠ canonicalArch host.arch then
    .error (.about .errNoMatchingVariant
      [.text "host ", .str host.arch, .text " cannot execute ", .str arch])
  else if rank arch host.level < 0 then
    .error (.about .errNoMatchingVariant [.text "unknown host level ", .quoted host.level])
  else
    let compatible := availableLevels.filter (hostSupports host)
    if policy.forceLevel ≠ [] ∧ ¬ hostSupports host policy.forceLevel then
      .error (.sentinel .errIncompatibleForcedVariant)
    else if availableLevels ≠ [] ∧ compatible = [] then
      .error (.sentinel .errNoMatchingVariant)
    else selectCompatibleVariant S risk arch host.level compatible policy

end

/-! ## Architectures and normal forms -/

section

variable [CaseTable]

/-- The architectures a container can target. -/
def KnownArch (arch : Bytes) : Prop :=
  canonicalArch arch = archAMD64 ∨ canonicalArch arch = archARM64

theorem rankTable_amd64 {arch : Bytes} (amd : canonicalArch arch = archAMD64) :
    rankTable arch = amd64Ranks := by
  have named : toLower arch ∈ amd64Names := by
    unfold canonicalArch at amd
    dsimp only at amd
    split at amd
    · exact absurd amd (by decide)
    · split at amd
      · rename_i other
        rcases other with h | h <;> rw [h] <;> decide
      · rw [amd]; decide
  unfold rankTable
  dsimp only
  rw [if_pos named]

theorem rankTable_arm64 {arch : Bytes} (arm : canonicalArch arch = archARM64) :
    rankTable arch = arm64Ranks := by
  have named : toLower arch ∈ arm64Names ∧ toLower arch ∉ amd64Names := by
    unfold canonicalArch at arm
    dsimp only at arm
    split at arm
    · rename_i other
      rw [other]; decide
    · split at arm
      · exact absurd arm (by decide)
      · rw [arm]; decide
  unfold rankTable
  dsimp only
  rw [if_neg named.2, if_pos named.1]

/-- Two names of one known architecture share a tier table. -/
theorem rank_congr {arch host : Bytes} (known : KnownArch arch)
    (same : canonicalArch arch = canonicalArch host) (level : Bytes) :
    rank arch level = rank host level := by
  have tables : rankTable arch = rankTable host := by
    rcases known with amd | arm
    · rw [rankTable_amd64 amd, rankTable_amd64 (same ▸ amd)]
    · rw [rankTable_arm64 arm, rankTable_arm64 (same ▸ arm)]
  rw [rank, rank, tables]

/-- A supported level has a tier name as its normal form. -/
theorem supports_normal {host : Info} {level : Bytes} (known : KnownArch host.arch)
    (supported : hostSupports host level = true) :
    normalize (normalize level) = normalize level := by
  apply normalize_tier
  rw [List.mem_append]
  unfold hostSupports at supported
  split at supported
  · rename_i other
    have amd : canonicalArch host.arch = archAMD64 := known.resolve_right other
    simp only [Bool.and_eq_true, decide_eq_true_eq] at supported
    have named := rank_tier supported.1
    rw [rankTable_amd64 amd] at named
    exact Or.inl named
  · right
    split at supported
    · cases supported
    · rename_i required collected
      obtain ⟨req, found⟩ := collectAt_known collected
      exact requirement_tier found

/-- Support depends on a level only through its normal form. -/
theorem supports_congr {a b : Bytes} (host : Info) (same : normalize a = normalize b) :
    hostSupports host a = hostSupports host b := by
  unfold hostSupports rank
  rw [same]

end

/-! ## Eligibility -/

section

variable [CaseTable] (S : SliceSort) (risk : Bool)

/-- AVX-512 protection is asked for and applies to this host. -/
def Protected (arch : Bytes) (host : Info) (policy : Policy) : Prop :=
  (policy.avx512DownclockProtection = true ∨ policy.name = policySafeAVX512 ∨
    policy.name = policyNoDownclock) ∧
  canonicalArch arch = archAMD64 ∧ rankAMD64v4 ≤ rank arch host.level ∧ risk = true

/-- The levels a policy without a forced level allows on a host. -/
structure Eligible (arch : Bytes) (host : Info) (policy : Policy) (level : Bytes) : Prop where
  tier : 0 ≤ rank arch level
  supported : hostSupports host level = true
  host_rank : rank arch level ≤ rank arch host.level
  max_level : policy.maxLevel ≠ [] → 0 ≤ rank arch (normalize policy.maxLevel) →
    rank arch level ≤ rank arch (normalize policy.maxLevel)
  protection : Protected risk arch host policy → rank arch level ≤ rankAMD64v3
  enabled : normalize level ∉ policy.disabledVariants.map normalize

theorem le_effectiveMaxRank {arch : Bytes} {host : Info} {policy : Policy} {r : Int} :
    (r ≤ rank arch host.level ∧
      r ≤ (computeEffectiveMaxRank risk arch (rank arch host.level) policy).1) ↔
    (r ≤ rank arch host.level ∧
      (policy.maxLevel ≠ [] → 0 ≤ rank arch (normalize policy.maxLevel) →
        r ≤ rank arch (normalize policy.maxLevel)) ∧
      (Protected risk arch host policy → r ≤ rankAMD64v3)) := by
  classical
  -- the cap by `MaxLevel` first, then the protection on top of either outcome
  let maxRank := rank arch (normalize policy.maxLevel)
  let cap := if policy.maxLevel ≠ [] ∧ 0 ≤ maxRank ∧ maxRank < rank arch host.level then maxRank
    else rank arch host.level
  have capped : r ≤ rank arch host.level → (r ≤ cap ↔ (policy.maxLevel ≠ [] → 0 ≤ maxRank → r ≤ maxRank)) := by
    intro below
    dsimp only [cap]
    split
    · rename_i lower
      exact ⟨fun le _ _ => le, fun le => le lower.1 lower.2.1⟩
    · rename_i higher
      refine ⟨fun _ set known => not_lt.mp fun above => higher ⟨set, known, above.trans_le below⟩, fun _ => below⟩
  have value : (computeEffectiveMaxRank risk arch (rank arch host.level) policy).1 =
      if Protected risk arch host policy ∧ rankAMD64v3 < cap then rankAMD64v3 else cap := by
    simp only [computeEffectiveMaxRank, Protected, apply_ite Prod.fst, Bool.or_eq_true, beq_iff_eq, or_assoc,
      and_assoc, cap, maxRank]
  rw [value]
  refine and_congr_right fun below => ?_
  split
  · rename_i guarded
    exact ⟨fun le => ⟨(capped below).mp (le.trans guarded.2.le), fun _ => le⟩, fun both => both.2 guarded.1⟩
  · rename_i free
    rw [capped below]
    exact ⟨fun le => ⟨le, fun asked => ((capped below).mpr le).trans (not_lt.mp fun high => free ⟨asked, high⟩)⟩,
      And.left⟩

end

/-! ## Selection -/

section

variable [CaseTable] (S : SliceSort) (risk : Bool)
  {arch : Bytes} {host : Info} {available : List Bytes} {policy : Policy}

/-- The candidates a selection sorts. -/
def candidatesOf (arch : Bytes) (host : Info) (available : List Bytes) (policy : Policy) :
    List VariantCandidate :=
  filterAndRankCandidates arch (rank arch host.level)
    (computeEffectiveMaxRank risk arch (rank arch host.level) policy).1
    (available.filter (hostSupports host)) (buildDisabledSet policy.disabledVariants)

/-- The candidates are exactly the eligible levels, with their ranks. -/
theorem candidate_iff (known : KnownArch arch) (same : canonicalArch arch = canonicalArch host.arch)
    {c : VariantCandidate} :
    c ∈ candidatesOf risk arch host available policy ↔
      ∃ l ∈ available, Eligible risk arch host policy l ∧ c = ⟨l, normalize l, rank arch l⟩ := by
  have knownHost : KnownArch host.arch := by unfold KnownArch at *; rwa [← same]
  have rank_norm : ∀ l, hostSupports host l = true → rank arch (normalize l) = rank arch l := by
    intro l supported
    rw [rank, rank, supports_normal knownHost supported]
  simp only [candidatesOf, filterAndRankCandidates, List.mem_filterMap, List.mem_filter]
  constructor
  · rintro ⟨l, ⟨member, supported⟩, picked⟩
    rw [rank_norm l supported] at picked
    split_ifs at picked with outside disabled
    cases picked
    push Not at outside
    obtain ⟨hr, hm, hp⟩ := (le_effectiveMaxRank risk).1 ⟨outside.2.1, outside.2.2⟩
    exact ⟨l, member, ⟨outside.1, supported, hr, hm, hp, disabled⟩, rfl⟩
  · rintro ⟨l, member, eligible, rfl⟩
    obtain ⟨hr, hm⟩ := (le_effectiveMaxRank risk).2
      ⟨eligible.host_rank, eligible.max_level, eligible.protection⟩
    have tier := eligible.tier
    refine ⟨l, ⟨member, eligible.supported⟩, ?_⟩
    rw [rank_norm l eligible.supported, if_neg (by push Not; exact ⟨tier, hr, hm⟩)]
    exact if_neg eligible.enabled

/-- Without a forced level, a selection is the head of the sorted candidates. -/
theorem select_ok_iff (same : canonicalArch arch = canonicalArch host.arch)
    (hostKnown : 0 ≤ rank arch host.level) (unforced : policy.forceLevel = [])
    {res : PolicyResult} :
    selectVariantForHost S risk arch host available policy = .ok res ↔
      ∃ best rest, S.sort (fun a b => decide (a.rank > b.rank))
          (candidatesOf risk arch host available policy) = best :: rest ∧
        res = ⟨best.original, (selectionNotes risk arch (rank arch host.level) policy).1,
          (selectionNotes risk arch (rank arch host.level) policy).2⟩ := by
  have none_left : available.filter (hostSupports host) = [] →
      S.sort (fun a b => decide (a.rank > b.rank))
        (candidatesOf risk arch host available policy) = [] := by
    intro empty
    have none : candidatesOf risk arch host available policy = [] := by
      simp [candidatesOf, filterAndRankCandidates, empty]
    rw [none]
    exact (S.perm _ _).eq_nil
  unfold selectVariantForHost selectCompatibleVariant
  simp only [same, unforced, ne_eq, not_true, false_and, if_false, not_lt.2 hostKnown]
  by_cases empty : available.filter (hostSupports host) = []
  · simp only [none_left empty, empty, and_true, if_true]
    split <;> simp
  · simp only [empty, and_false, if_false]
    rw [show filterAndRankCandidates _ _ _ _ _ = candidatesOf risk arch host available policy
      from rfl]
    cases S.sort (fun a b => decide (a.rank > b.rank))
        (candidatesOf risk arch host available policy) with
    | nil => simp
    | cons best rest =>
      simp only [Except.ok.injEq, List.cons.injEq]
      constructor
      · rintro rfl; exact ⟨best, rest, ⟨rfl, rfl⟩, rfl⟩
      · rintro ⟨_, _, ⟨rfl, rfl⟩, rfl⟩; rfl


section

variable (known : KnownArch arch) (same : canonicalArch arch = canonicalArch host.arch)
    (hostKnown : 0 ≤ rank arch host.level) (unforced : policy.forceLevel = [])

include known same hostKnown unforced

theorem select_eligible {res : PolicyResult}
    (selected : selectVariantForHost S risk arch host available policy = .ok res) :
    res.selectedVariant ∈ available ∧ Eligible risk arch host policy res.selectedVariant ∧
      ∀ l ∈ available, Eligible risk arch host policy l →
        rank arch l ≤ rank arch res.selectedVariant := by
  obtain ⟨best, rest, sorted, rfl⟩ :=
    (select_ok_iff S risk same hostKnown unforced).1 selected
  have order : StrictWeak fun a b : VariantCandidate => decide (a.rank > b.rank) := by
    simpa using strictWeak_key fun c : VariantCandidate => -c.rank
  obtain ⟨member, least⟩ := S.head_least order sorted
  obtain ⟨l, listed, eligible, rfl⟩ := (candidate_iff risk known same).1 member
  refine ⟨listed, eligible, fun l' listed' eligible' => ?_⟩
  have below := least _ ((candidate_iff risk known same).2 ⟨l', listed', eligible', rfl⟩)
  simpa using below

theorem select_succeeds {l : Bytes} (listed : l ∈ available) (eligible : Eligible risk arch host policy l) :
    ∃ res, selectVariantForHost S risk arch host available policy = .ok res := by
  have candidate : ⟨l, normalize l, rank arch l⟩ ∈ candidatesOf risk arch host available policy :=
    (candidate_iff risk known same).2 ⟨l, listed, eligible, rfl⟩
  cases sorted : S.sort (fun a b => decide (a.rank > b.rank))
      (candidatesOf risk arch host available policy) with
  | nil => simp [S.sort_eq_nil sorted] at candidate
  | cons best rest =>
    exact ⟨_, (select_ok_iff S risk same hostKnown unforced).2 ⟨best, rest, sorted, rfl⟩⟩

end

/-- Eligible levels with distinct normal forms have distinct ranks. -/
theorem eligible_rank_inj (distinct : (available.map normalize).Nodup) {a b : Bytes}
    (ha : a ∈ available) (hb : b ∈ available) (eligible : Eligible risk arch host policy a)
    (tie : rank arch a = rank arch b) : a = b :=
  List.inj_on_of_nodup_map distinct ha hb (rank_injective eligible.tier tie)

section

variable (known : KnownArch arch) (same : canonicalArch arch = canonicalArch host.arch)
    (hostKnown : 0 ≤ rank arch host.level)

include known same hostKnown

/-- With a forced level, the result is the first available level of that tier. -/
theorem forced_ok_iff (forced : policy.forceLevel ≠ []) {res : PolicyResult} :
    selectVariantForHost S risk arch host available policy = .ok res ↔
      hostSupports host policy.forceLevel = true ∧ 0 ≤ rank arch policy.forceLevel ∧
        rank arch policy.forceLevel ≤ rank arch host.level ∧
        ∃ lvl, (available.filter (hostSupports host)).find?
            (fun lvl => normalize lvl = normalize policy.forceLevel) = some lvl ∧
          res = ⟨lvl, lit "force_level", lit "MICROFAT_FORCE_LEVEL=" ++ policy.forceLevel⟩ := by
  have knownHost : KnownArch host.arch := by unfold KnownArch at *; rwa [← same]
  unfold selectVariantForHost selectCompatibleVariant
  simp only [same, ne_eq, not_true, if_false, not_lt.2 hostKnown, forced, not_false_iff, true_and,
    if_true]
  by_cases supported : hostSupports host policy.forceLevel = true
  · have rank_norm : rank arch (normalize policy.forceLevel) = rank arch policy.forceLevel := by
      rw [rank, rank, supports_normal knownHost supported]
    simp only [supported, not_true, if_false, true_and, resolveForcedVariant, rank_norm, hostKnown]
    by_cases empty : available.filter (hostSupports host) = []
    · simp only [empty, and_true, if_true]
      split <;> simp
    · simp only [empty, and_false, if_false]
      split
      · rename_i unknown
        simp only [reduceCtorEq, false_iff, not_and]
        intro tier; omega
      · rename_i tier
        split
        · rename_i above
          simp only [reduceCtorEq, false_iff, not_and]
          intro _ below; omega
        · rename_i within
          simp only [not_lt.1 tier, not_lt.1 within, true_and]
          cases (available.filter (hostSupports host)).find?
              (fun lvl => decide (normalize lvl = normalize policy.forceLevel)) with
          | none => simp
          | some lvl => simp [eq_comm]
  · simp [supported]


/-- The selected level does not depend on the order of the list or on the sort. -/
theorem select_perm (distinct : (available.map normalize).Nodup) (unforced : policy.forceLevel = [])
    {res : PolicyResult} (selected : selectVariantForHost S risk arch host available policy = .ok res)
    (S' : SliceSort) {available' : List Bytes} (perm : available'.Perm available) :
    selectVariantForHost S' risk arch host available' policy = .ok res := by
  obtain ⟨listed, eligible, maximal⟩ := select_eligible S risk known same hostKnown unforced selected
  obtain ⟨res', selected'⟩ :=
    select_succeeds S' risk known same hostKnown unforced (perm.mem_iff.2 listed) eligible
  obtain ⟨listed', eligible', maximal'⟩ :=
    select_eligible S' risk known same hostKnown unforced selected'
  have tie : rank arch res.selectedVariant = rank arch res'.selectedVariant :=
    le_antisymm (maximal' _ (perm.mem_iff.2 listed) eligible)
      (maximal _ (perm.mem_iff.1 listed') eligible')
  have level := eligible_rank_inj risk distinct listed (perm.mem_iff.1 listed') eligible tie
  obtain ⟨best, rest, -, rfl⟩ := (select_ok_iff S risk same hostKnown unforced).1 selected
  obtain ⟨best', rest', -, rfl⟩ := (select_ok_iff S' risk same hostKnown unforced).1 selected'
  have original : best.original = best'.original := level
  rw [selected', original]

end

/-- The levels that were not selected do not matter. -/
theorem select_alone (known : KnownArch arch) {res : PolicyResult}
    (selected : selectVariantForHost S risk arch host available policy = .ok res) :
    selectVariantForHost S risk arch host [res.selectedVariant] policy = .ok res := by
  have same : canonicalArch arch = canonicalArch host.arch := by
    by_contra differ
    rw [selectVariantForHost, if_pos differ] at selected
    cases selected
  have hostKnown : 0 ≤ rank arch host.level := by
    by_contra unknown
    rw [selectVariantForHost, if_neg (not_not.mpr same), if_pos (not_le.mp unknown)] at selected
    cases selected
  by_cases forced : policy.forceLevel = []
  · obtain ⟨-, eligible, -⟩ := select_eligible S risk known same hostKnown forced selected
    obtain ⟨res', alone⟩ := select_succeeds S risk known same hostKnown forced List.mem_cons_self eligible
    have level := List.mem_singleton.mp (select_eligible S risk known same hostKnown forced alone).1
    obtain ⟨best, rest, -, rfl⟩ := (select_ok_iff S risk same hostKnown forced).1 selected
    obtain ⟨best', rest', -, rfl⟩ := (select_ok_iff S risk same hostKnown forced).1 alone
    rw [alone, show best'.original = best.original from level]
  · rw [forced_ok_iff S risk known same hostKnown forced] at selected ⊢
    obtain ⟨supported, tier, below, level, found, rfl⟩ := selected
    refine ⟨supported, tier, below, level, ?_, rfl⟩
    have named := List.find?_some found
    have listed := (List.mem_filter.mp (List.mem_of_find?_eq_some found)).2
    rw [List.filter_cons_of_pos listed]
    exact List.find?_cons_of_pos named

/-- **Selection meets its specification**, with and without a forced level. -/
theorem selectVariantForHost_spec (known : KnownArch arch)
    (same : canonicalArch arch = canonicalArch host.arch)
    (hostKnown : 0 ≤ rank arch host.level) (distinct : (available.map normalize).Nodup) :
    (policy.forceLevel = [] →
      ((∃ res, selectVariantForHost S risk arch host available policy = .ok res) ↔
        ∃ l ∈ available, Eligible risk arch host policy l) ∧
      ∀ res, selectVariantForHost S risk arch host available policy = .ok res →
        res.selectedVariant ∈ available ∧ Eligible risk arch host policy res.selectedVariant ∧
        (∀ l ∈ available, Eligible risk arch host policy l → l ≠ res.selectedVariant →
          rank arch l < rank arch res.selectedVariant) ∧
        ∀ (S' : SliceSort) (available' : List Bytes), available'.Perm available →
          selectVariantForHost S' risk arch host available' policy = .ok res) ∧
    (policy.forceLevel ≠ [] →
      ((∃ res, selectVariantForHost S risk arch host available policy = .ok res) ↔
        0 ≤ rank arch policy.forceLevel ∧ hostSupports host policy.forceLevel = true ∧
        rank arch policy.forceLevel ≤ rank arch host.level ∧
        ∃ l ∈ available, normalize l = normalize policy.forceLevel) ∧
      ∀ res, selectVariantForHost S risk arch host available policy = .ok res →
        res.selectedVariant ∈ available ∧
        normalize res.selectedVariant = normalize policy.forceLevel) := by
  constructor
  · intro unforced
    refine ⟨⟨?_, ?_⟩, ?_⟩
    · rintro ⟨res, selected⟩
      obtain ⟨listed, eligible, -⟩ := select_eligible S risk known same hostKnown unforced selected
      exact ⟨_, listed, eligible⟩
    · rintro ⟨l, listed, eligible⟩
      exact select_succeeds S risk known same hostKnown unforced listed eligible
    · intro res selected
      obtain ⟨listed, eligible, maximal⟩ :=
        select_eligible S risk known same hostKnown unforced selected
      refine ⟨listed, eligible, fun l member other ne => ?_, fun S' available' perm =>
        select_perm S risk known same hostKnown distinct unforced selected S' perm⟩
      refine lt_of_le_of_ne (maximal l member other) fun tie => ne ?_
      exact eligible_rank_inj risk distinct member listed other tie
  · intro forced
    refine ⟨⟨?_, ?_⟩, ?_⟩
    · rintro ⟨res, selected⟩
      obtain ⟨supported, tier, below, lvl, found, -⟩ :=
        (forced_ok_iff S risk known same hostKnown forced).1 selected
      have listed := List.mem_of_find?_eq_some found
      have named : normalize lvl = normalize policy.forceLevel := by
        simpa using List.find?_some found
      exact ⟨tier, supported, below, lvl, (List.mem_filter.1 listed).1, named⟩
    · rintro ⟨tier, supported, below, l, listed, named⟩
      have present : l ∈ available.filter (hostSupports host) :=
        List.mem_filter.2 ⟨listed, (supports_congr host named).trans supported⟩
      cases found : (available.filter (hostSupports host)).find?
          (fun lvl => normalize lvl = normalize policy.forceLevel) with
      | none => exact absurd (decide_eq_true named) (List.find?_eq_none.1 found l present)
      | some lvl =>
        exact ⟨_, (forced_ok_iff S risk known same hostKnown forced).2
          ⟨supported, tier, below, lvl, found, rfl⟩⟩
    · intro res selected
      obtain ⟨-, -, -, lvl, found, rfl⟩ :=
        (forced_ok_iff S risk known same hostKnown forced).1 selected
      refine ⟨(List.mem_filter.1 (List.mem_of_find?_eq_some found)).1, ?_⟩
      simpa using List.find?_some found

end

section

local instance : CaseTable := CaseTable.ascii

/-- A v3 host, reported under an alias of its architecture. -/
def sampleHost : Info := ⟨lit "linux", lit "x86_64", lit "v3", []⟩

def samplePolicy : Policy := ⟨[], [], [], [], false⟩

theorem selectVariantForHost_v3 :
    selectVariantForHost insertionSlice true (lit "amd64") sampleHost
        [lit "amd64_v2", lit "V3", lit "v4"] samplePolicy = .ok ⟨lit "V3", [], []⟩ ∧
    rank (lit "amd64") (lit "amd64_v2") < rank (lit "amd64") (lit "V3") := by
  have selected : selectVariantForHost insertionSlice true (lit "amd64") sampleHost
      [lit "amd64_v2", lit "V3", lit "v4"] samplePolicy = .ok ⟨lit "V3", [], []⟩ := by
    rfl
  have spec := (@selectVariantForHost_spec _ insertionSlice true (lit "amd64") sampleHost
    [lit "amd64_v2", lit "V3", lit "v4"] samplePolicy (Or.inl (by decide +kernel))
    (by decide +kernel) (by decide +kernel) (by decide +kernel)).1 rfl
  have eligible : Eligible true (lit "amd64") sampleHost samplePolicy (lit "amd64_v2") := by
    refine ⟨by decide +kernel, by decide +kernel, by decide +kernel, ?_, ?_, by decide +kernel⟩
    · intro set; exact absurd rfl set
    · rintro ⟨asked, -⟩; revert asked; decide +kernel
  exact ⟨selected, (spec.2 _ selected).2.2.1 _ (by decide +kernel) eligible (by decide +kernel)⟩

end

end Microfat.Microarch
