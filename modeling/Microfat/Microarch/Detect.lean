/-
# Microfat.Microarch.Detect — from CPU features to a host

A feature set is a function from flags to `Bool`, one flag per field of the source's
records.  `detectForArch` turns it into the `Info` selection reads.

`evaluateARM64Detailed` walks the tiers from the highest down and asks for each
whether its own features and its prerequisites are there; a cache shared by all the
tiers keeps the answers.  `Satisfied` is what it computes: the tier's features and,
recursively, those of its prerequisites are present.

* `checkARM64LevelSatisfied_spec`: with a sound cache the recursive check answers
  `Satisfied`, keeps the cache sound, and never meets a tier it is visiting;
* `evaluateARM64Detailed_spec`: the detected level is the highest satisfied tier, or
  the baseline;
* `evaluateAMD64_mono`, `evaluateARM64Detailed_mono`, `featureList_mono`: more features never
  lower the level nor drop a feature name.
-/
import Microfat.Microarch.Select

namespace Microfat.Microarch

open Theory

set_option autoImplicit false

/-! ## Feature sets -/

/-- The fields of the source's `X86Features`. -/
inductive X86Flag
  | lahfsahf | cx16 | popcnt | sse3 | ssse3 | sse41 | sse42 | avx | avx2 | bmi1 | bmi2 | fma
  | osxsave | f16c | lzcnt | movbe | avx512f | avx512bw | avx512cd | avx512dq | avx512vl
  deriving DecidableEq

/-- The fields of the source's `ARM64Features`. -/
inductive ARM64Flag
  | fp | asimd | atomics | crc32 | fphp | asimdhp | jscvt | fcma | lrcpc | dcpop | asimddp | dit
  | sve | sve2 | i8mm | bf16 | wfxt | sme | sme2 | mops | nmi | hbc | gcs | the | aes | pmull | sha1
  | sha2 | sha3 | sha512 | sm3 | sm4 | asimdfhm | asimdrdm
  deriving DecidableEq

abbrev X86Features := X86Flag → Bool
abbrev ARM64Features := ARM64Flag → Bool

/-- Every feature of `f` is one of `g`. -/
def Contained {Flag : Type} (f g : Flag → Bool) : Prop := ∀ flag, f flag = true → g flag = true

/-- The names of the flags that are set, in the order of the list. -/
def featureList {Flag : Type} (names : List (Flag × Bytes)) (f : Flag → Bool) : List Bytes :=
  (names.filter fun entry => f entry.1).map Prod.snd

def x86Names : List (X86Flag × Bytes) :=
  [(.lahfsahf, lit "lahf_lm"), (.cx16, lit "cx16"), (.popcnt, lit "popcnt"), (.sse3, lit "sse3"),
   (.ssse3, lit "ssse3"), (.sse41, lit "sse4.1"), (.sse42, lit "sse4.2"), (.avx, lit "avx"),
   (.avx2, lit "avx2"), (.bmi1, lit "bmi1"), (.bmi2, lit "bmi2"), (.fma, lit "fma"),
   (.osxsave, lit "osxsave"), (.f16c, lit "f16c"), (.lzcnt, lit "lzcnt"), (.movbe, lit "movbe"),
   (.avx512f, lit "avx512f"), (.avx512bw, lit "avx512bw"), (.avx512cd, lit "avx512cd"),
   (.avx512dq, lit "avx512dq"), (.avx512vl, lit "avx512vl")]

def extractX86FeatureList (f : X86Features) : List Bytes := featureList x86Names f

def simdNames : List (ARM64Flag × Bytes) :=
  [(.fp, lit "fp"), (.asimd, lit "asimd"), (.fphp, lit "fphp"), (.asimdhp, lit "asimdhp"),
   (.asimddp, lit "asimddp"), (.sve, lit "sve"), (.sve2, lit "sve2"), (.i8mm, lit "i8mm"),
   (.bf16, lit "bf16"), (.sme, lit "sme"), (.sme2, lit "sme2"), (.asimdfhm, lit "asimdfhm"),
   (.asimdrdm, lit "asimdrdm")]

def cryptoNames : List (ARM64Flag × Bytes) :=
  [(.aes, lit "aes"), (.pmull, lit "pmull"), (.sha1, lit "sha1"), (.sha2, lit "sha2"),
   (.sha3, lit "sha3"), (.sha512, lit "sha512"), (.sm3, lit "sm3"), (.sm4, lit "sm4")]

def coreNames : List (ARM64Flag × Bytes) :=
  [(.atomics, lit "atomics"), (.crc32, lit "crc32"), (.jscvt, lit "jscvt"), (.fcma, lit "fcma"),
   (.lrcpc, lit "lrcpc"), (.dcpop, lit "dcpop"), (.dit, lit "dit"), (.wfxt, lit "wfxt"),
   (.mops, lit "mops"), (.nmi, lit "nmi"), (.hbc, lit "hbc"), (.gcs, lit "gcs"), (.the, lit "the")]

def appendSIMDFeatureList (list : List Bytes) (f : ARM64Features) : List Bytes :=
  list ++ featureList simdNames f

def appendCryptoFeatureList (list : List Bytes) (f : ARM64Features) : List Bytes :=
  list ++ featureList cryptoNames f

def appendCoreFeatureList (list : List Bytes) (f : ARM64Features) : List Bytes :=
  list ++ featureList coreNames f

def extractARM64FeatureList (f : ARM64Features) : List Bytes :=
  appendCoreFeatureList (appendCryptoFeatureList (appendSIMDFeatureList [] f) f) f

/-! ## AMD64 levels -/

def evaluateAMD64 (f : X86Features) : Bytes :=
  let hasV2 := f .lahfsahf && f .cx16 && f .popcnt && f .sse3 && f .ssse3 && f .sse41 && f .sse42
  if !hasV2 then lit "v1"
  else
    let hasV3 := hasV2 && f .avx && f .avx2 && f .bmi1 && f .bmi2 && f .fma && f .osxsave &&
      f .f16c && f .lzcnt && f .movbe
    if !hasV3 then lit "v2"
    else
      let hasV4 := hasV3 && f .avx512f && f .avx512bw && f .avx512cd && f .avx512dq && f .avx512vl
      if !hasV4 then lit "v3" else lit "v4"

/-! ## ARM64 levels -/

/-- The flags the `CheckFeatures` function of each tier asks for. -/
def arm64CheckFlags : List (Bytes × List ARM64Flag) :=
  [(lit "v8.0", [.fp, .asimd]), (lit "v8.1", [.atomics, .crc32]), (lit "v8.2", [.fphp, .asimdhp]),
   (lit "v8.3", [.jscvt, .fcma, .lrcpc]), (lit "v8.4", [.dcpop, .asimddp]), (lit "v8.5", [.dit]),
   (lit "v8.6", [.i8mm, .bf16]), (lit "v8.7", [.wfxt]), (lit "v8.8", [.mops, .nmi, .hbc]),
   (lit "v8.9", [.gcs, .the]), (lit "v9.0", [.sve]), (lit "v9.1", []), (lit "v9.2", [.sve2]),
   (lit "v9.3", [.sme]), (lit "v9.4", []), (lit "v9.5", [.sme2])]

/-- `CheckFeatures` of the requirement of a tier. -/
def LevelRequirement.checkFeatures (req : LevelRequirement) (f : ARM64Features) : Bool :=
  ((arm64CheckFlags.lookup req.level).getD []).all f

/-- The field each case of `hasARM64NamedFeature` returns. -/
def arm64NamedFlags : List (Bytes × ARM64Flag) :=
  [(lit "fp", .fp), (lit "asimd", .asimd), (lit "atomics", .atomics), (lit "crc32", .crc32),
   (lit "fphp", .fphp), (lit "asimdhp", .asimdhp), (lit "jscvt", .jscvt), (lit "fcma", .fcma),
   (lit "lrcpc", .lrcpc), (lit "dcpop", .dcpop), (lit "asimddp", .asimddp), (lit "dit", .dit),
   (lit "i8mm", .i8mm), (lit "bf16", .bf16), (lit "wfxt", .wfxt), (lit "sve", .sve),
   (lit "sve2", .sve2), (lit "sme", .sme), (lit "sme2", .sme2), (lit "mops", .mops),
   (lit "nmi", .nmi), (lit "hbc", .hbc), (lit "gcs", .gcs), (lit "the", .the)]

def hasARM64NamedFeature (name : Bytes) (f : ARM64Features) : Bool :=
  match arm64NamedFlags.lookup name with
  | some flag => f flag
  | none => false

def findMissingARM64Features (required : List Bytes) (f : ARM64Features) : List Bytes :=
  required.filter fun feat => !hasARM64NamedFeature feat f

/-- The answers found so far, newest first. -/
abbrev SatisfiedCache := List (Bytes × Bool)

/-- The loop over the prerequisites: it stops at the first that is not satisfied. -/
def checkPrereqs (check : Bytes → SatisfiedCache → Bool × SatisfiedCache) :
    List Bytes → SatisfiedCache → Bool × SatisfiedCache
  | [], cache => (true, cache)
  | prereq :: rest, cache =>
    let (sat, cache) := check prereq cache
    if sat then checkPrereqs check rest cache else (false, cache)

/-- The recursion of the source ends because the tiers are finite; `depth` bounds it
here and `requirementDepth` is always enough. -/
def checkARM64LevelSatisfied (f : ARM64Features) : Nat → Bytes → SatisfiedCache → List Bytes →
    Bool × SatisfiedCache
  | 0, _, cache, _ => (false, cache)
  | depth + 1, level, cache, visiting =>
    match cache.lookup level with
    | some sat => (sat, cache)
    | none =>
      if level ∈ visiting then (false, cache)
      else match arm64Requirement level with
        | none => (false, (level, false) :: cache)
        | some req =>
          if !req.checkFeatures f then (false, (level, false) :: cache)
          else
            let (sat, cache) := checkPrereqs
              (fun prereq cache => checkARM64LevelSatisfied f depth prereq cache (level :: visiting))
              req.prereqs cache
            (sat, (level, sat) :: cache)

def arm64OrderedLevels : List Bytes :=
  [lit "v9.5", lit "v9.4", lit "v9.3", lit "v9.2", lit "v9.1", lit "v9.0", lit "v8.9", lit "v8.8",
   lit "v8.7", lit "v8.6", lit "v8.5", lit "v8.4", lit "v8.3", lit "v8.2", lit "v8.1", lit "v8.0"]

/-- The loop of `EvaluateARM64` over the levels that are left. -/
def firstLevel (f : ARM64Features) : List Bytes → SatisfiedCache → Bytes
  | [], _ => lit "v8.0"
  | lvl :: rest, cache =>
    let (sat, cache) := checkARM64LevelSatisfied f requirementDepth lvl cache []
    if sat then lvl else firstLevel f rest cache

def evaluateARM64 (f : ARM64Features) : Bytes := firstLevel f arm64OrderedLevels []

/-- The source's `ARM64LevelStatus` without the texts it copies from the table. -/
structure ARM64LevelStatus where
  level : Bytes
  satisfied : Bool
  missingPrereqs : List Bytes
  missingFeatures : List Bytes

/-- The inner loop of `EvaluateARM64Detailed`: the prerequisites that are missing. -/
def findMissingPrereqs (f : ARM64Features) : List Bytes → SatisfiedCache → List Bytes × SatisfiedCache
  | [], cache => ([], cache)
  | prereq :: rest, cache =>
    let (sat, cache) := checkARM64LevelSatisfied f requirementDepth prereq cache []
    let (missing, cache) := findMissingPrereqs f rest cache
    (if sat then missing else prereq :: missing, cache)

structure Evaluation where
  cache : SatisfiedCache
  statuses : List ARM64LevelStatus
  highestLevel : Bytes

/-- One iteration of `EvaluateARM64Detailed`. -/
def evaluateLevel (f : ARM64Features) (ev : Evaluation) (lvl : Bytes) : Evaluation :=
  let req := (arm64Requirement lvl).getD ⟨[], [], []⟩
  let missingFeatures :=
    if !req.checkFeatures f then findMissingARM64Features req.requiredFeatures f else []
  let (missingPrereqs, cache) := findMissingPrereqs f req.prereqs ev.cache
  let isSat := missingFeatures == [] && missingPrereqs == []
  { cache := (lvl, isSat) :: cache
    statuses := ev.statuses ++ [⟨lvl, isSat, missingPrereqs, missingFeatures⟩]
    highestLevel :=
      if isSat ∧ ev.highestLevel = lit "v8.0" ∧ lvl ≠ lit "v8.0" then lvl else ev.highestLevel }

def evaluateARM64Detailed (f : ARM64Features) : Bytes × List ARM64LevelStatus :=
  let ev := arm64OrderedLevels.foldl (evaluateLevel f) ⟨[], [], lit "v8.0"⟩
  let highestLevel :=
    if ev.highestLevel = lit "v8.0" ∧
        (checkARM64LevelSatisfied f requirementDepth (lit "v8.0") ev.cache []).1 = true then lit "v8.0"
    else ev.highestLevel
  (highestLevel, ev.statuses)

def detectForArch (goos goarch : Bytes) (x86Feat : X86Features) (armFeat : ARM64Features) : Info :=
  if goarch = archAMD64 then
    ⟨goos, goarch, evaluateAMD64 x86Feat, extractX86FeatureList x86Feat⟩
  else if goarch = archARM64 then
    ⟨goos, goarch, (evaluateARM64Detailed armFeat).1, extractARM64FeatureList armFeat⟩
  else ⟨goos, goarch, lit "v1", []⟩

/-! ## Satisfied tiers -/

variable {f g : ARM64Features} {req : LevelRequirement} {level : Bytes}

/-- The features of the tier are there and its prerequisites are satisfied. -/
inductive Satisfied (f : ARM64Features) : Bytes → Prop
  | tier {level : Bytes} {req : LevelRequirement} (known : arm64Requirement level = some req)
      (features : req.checkFeatures f = true) (prereqs : ∀ p ∈ req.prereqs, Satisfied f p) :
      Satisfied f level

theorem checkFeatures_mono (contained : Contained f g) (features : req.checkFeatures f = true) :
    req.checkFeatures g = true := by
  rw [LevelRequirement.checkFeatures, List.all_eq_true] at *
  exact fun flag mem => contained flag (features flag mem)

theorem Satisfied.mono (contained : Contained f g) (satisfied : Satisfied f level) :
    Satisfied g level := by
  induction satisfied with
  | tier known features _ ih => exact .tier known (checkFeatures_mono contained features) ih

/-- Every answer in the cache is right. -/
def SatisfiedCache.Sound (f : ARM64Features) (cache : SatisfiedCache) : Prop :=
  ∀ level sat, cache.lookup level = some sat → (sat = true ↔ Satisfied f level)

theorem SatisfiedCache.Sound.cons {cache : SatisfiedCache} (sound : cache.Sound f) {sat : Bool}
    (right : sat = true ↔ Satisfied f level) :
    SatisfiedCache.Sound f ((level, sat) :: cache) := by
  intro other answer found
  by_cases same : other = level
  · subst same
    rw [List.lookup_cons, beq_self_eq_true] at found
    cases found
    exact right
  · rw [List.lookup_cons, beq_eq_false_iff_ne.mpr same] at found
    exact sound other answer found

/-- The answer is right and the cache stays sound. -/
def Answers (f : ARM64Features) (property : Prop) (out : Bool × SatisfiedCache) : Prop :=
  (out.1 = true ↔ property) ∧ out.2.Sound f

theorem checkPrereqs_spec {check : Bytes → SatisfiedCache → Bool × SatisfiedCache}
    {prereqs : List Bytes}
    (right : ∀ p ∈ prereqs, ∀ cache, SatisfiedCache.Sound f cache → Answers f (Satisfied f p) (check p cache)) :
    ∀ cache, SatisfiedCache.Sound f cache →
      Answers f (∀ p ∈ prereqs, Satisfied f p) (checkPrereqs check prereqs cache) := by
  induction prereqs with
  | nil => exact fun cache sound => ⟨by simp [checkPrereqs], sound⟩
  | cons p rest ih =>
    intro cache sound
    rw [List.forall_mem_cons] at right
    obtain ⟨answer, kept⟩ := right.1 cache sound
    rw [checkPrereqs, List.forall_mem_cons]
    dsimp only
    by_cases sat : (check p cache).1 = true
    · obtain ⟨restAnswer, restKept⟩ := ih right.2 _ kept
      rw [if_pos sat]
      exact ⟨by rw [restAnswer]; simp [answer.mp sat], restKept⟩
    · rw [if_neg sat]
      exact ⟨by simp [← answer, sat], kept⟩

theorem tierIndex_lt_depth (level : Bytes) : tierIndex level < requirementDepth := by
  have bound : tierIndex level ≤ arm64LevelRequirements.length := List.findIdx_le_length
  have : arm64LevelRequirements.length < requirementDepth := by decide
  omega

theorem requirement_listed (found : arm64Requirement level = some req) :
    req ∈ arm64LevelRequirements ∧ req.level = level :=
  ⟨List.mem_of_find?_eq_some found, by simpa using List.find?_some found⟩

theorem checkARM64LevelSatisfied_spec (depth : Nat) :
    ∀ (level : Bytes) (cache : SatisfiedCache) (visiting : List Bytes), tierIndex level < depth →
      cache.Sound f → (∀ v ∈ visiting, tierIndex level < tierIndex v) →
      Answers f (Satisfied f level) (checkARM64LevelSatisfied f depth level cache visiting) := by
  induction depth with
  | zero => intro level _ _ deep; omega
  | succ depth ih =>
    intro level cache visiting deep sound below
    rw [checkARM64LevelSatisfied.eq_def]
    dsimp only
    cases found : cache.lookup level with
    | some sat => exact ⟨sound level sat found, sound⟩
    | none =>
      have fresh : level ∉ visiting := fun mem => Nat.lt_irrefl _ (below level mem)
      simp only [if_neg fresh]
      cases known : arm64Requirement level with
      | none =>
        have no : ¬ Satisfied f level := by
          rintro ⟨known', -, -⟩
          rw [known] at known'
          cases known'
        exact ⟨by simp [no], sound.cons (by simp [no])⟩
      | some req =>
        obtain ⟨listed, named⟩ := requirement_listed known
        cases features : req.checkFeatures f with
        | false =>
          have no : ¬ Satisfied f level := by
            rintro ⟨known', features', -⟩
            rw [known, Option.some.injEq] at known'
            rw [← known', features] at features'
            cases features'
          exact ⟨by simp [no, features], by simpa [features] using sound.cons (by simp [no])⟩
        | true =>
          have whole : Satisfied f level ↔ ∀ p ∈ req.prereqs, Satisfied f p := by
            constructor
            · rintro ⟨known', -, prereqs⟩
              rw [known, Option.some.injEq] at known'
              exact known' ▸ prereqs
            · exact .tier known features
          -- a prerequisite comes strictly before its tier, so the walk never
          -- meets a tier it is visiting
          have right := checkPrereqs_spec (fun p mem cache sound =>
            ih p cache (level :: visiting)
              (by have := prereqs_earlier req listed p mem; rw [named] at this; omega) sound
              (by
                have earlier := prereqs_earlier req listed p mem
                rw [named] at earlier
                exact List.forall_mem_cons.mpr
                  ⟨earlier, fun v mem => Nat.lt_trans earlier (below v mem)⟩)) cache sound
          simp only [features, Bool.not_true, Bool.false_eq_true, if_false]
          exact ⟨right.1.trans whole.symm, right.2.cons (right.1.trans whole.symm)⟩

/-! ## The detected level -/

theorem findMissingPrereqs_spec (prereqs : List Bytes) :
    ∀ cache, SatisfiedCache.Sound f cache →
      ((findMissingPrereqs f prereqs cache).1 = [] ↔ ∀ p ∈ prereqs, Satisfied f p) ∧
        (findMissingPrereqs f prereqs cache).2.Sound f := by
  induction prereqs with
  | nil => exact fun cache sound => ⟨by simp [findMissingPrereqs], sound⟩
  | cons p rest ih =>
    intro cache sound
    obtain ⟨answer, kept⟩ :=
      checkARM64LevelSatisfied_spec requirementDepth p cache [] (tierIndex_lt_depth p) sound (by simp)
    obtain ⟨missing, restKept⟩ := ih _ kept
    rw [findMissingPrereqs, List.forall_mem_cons, ← answer, ← missing]
    refine ⟨?_, restKept⟩
    dsimp only
    split
    · rename_i sat
      simp [sat]
    · rename_i unsat
      simp [unsat]

/-- The named features of a tier are the flags its check asks for. -/
theorem checkFeatures_iff_named (listed : req ∈ arm64LevelRequirements) :
    req.checkFeatures f = true ↔ ∀ name ∈ req.requiredFeatures, hasARM64NamedFeature name f = true := by
  have tables : ∀ req ∈ arm64LevelRequirements, req.requiredFeatures.map (fun name => arm64NamedFlags.lookup name) =
      ((arm64CheckFlags.lookup req.level).getD []).map some := by decide +kernel
  have table := tables req listed
  rw [LevelRequirement.checkFeatures, List.all_eq_true]
  constructor
  · intro flags name mem
    obtain ⟨flag, inside, found⟩ := List.mem_map.mp
      (table ▸ List.mem_map_of_mem (f := fun name => arm64NamedFlags.lookup name) mem)
    rw [hasARM64NamedFeature, ← found]
    exact flags flag inside
  · intro names flag inside
    obtain ⟨name, mem, found⟩ := List.mem_map.mp (table ▸ List.mem_map_of_mem (f := some) inside)
    have has := names name mem
    rw [hasARM64NamedFeature, found] at has
    exact has

/-- The status says whether its tier is satisfied. -/
def ARM64LevelStatus.Right (f : ARM64Features) (status : ARM64LevelStatus) : Prop :=
  status.satisfied = true ↔ Satisfied f status.level

theorem evaluateLevel_spec {ev : Evaluation} (sound : ev.cache.Sound f) {lvl : Bytes}
    (known : arm64Requirement lvl = some req) :
    (evaluateLevel f ev lvl).cache.Sound f ∧
      (∃ status, (evaluateLevel f ev lvl).statuses = ev.statuses ++ [status] ∧ status.level = lvl ∧
        status.Right f) ∧
      ((Satisfied f lvl ∧ ev.highestLevel = lit "v8.0" ∧ lvl ≠ lit "v8.0" ∧
          (evaluateLevel f ev lvl).highestLevel = lvl) ∨
        (¬ (Satisfied f lvl ∧ ev.highestLevel = lit "v8.0" ∧ lvl ≠ lit "v8.0") ∧
          (evaluateLevel f ev lvl).highestLevel = ev.highestLevel)) := by
  obtain ⟨listed, -⟩ := requirement_listed known
  obtain ⟨missing, kept⟩ := findMissingPrereqs_spec req.prereqs ev.cache sound
  have complete : (if (!req.checkFeatures f) = true then findMissingARM64Features req.requiredFeatures f
      else []) = [] ↔ req.checkFeatures f = true := by
    split
    · rename_i fails
      rw [checkFeatures_iff_named listed, findMissingARM64Features, List.filter_eq_nil_iff]
      simp
    · rename_i holds
      simpa using holds
  have isSat : (((if (!req.checkFeatures f) = true then findMissingARM64Features req.requiredFeatures f
      else []) == []) && ((findMissingPrereqs f req.prereqs ev.cache).1 == [])) = true ↔
        Satisfied f lvl := by
    rw [Bool.and_eq_true, beq_iff_eq, beq_iff_eq, complete, missing]
    constructor
    · exact fun h => .tier known h.1 h.2
    · rintro ⟨known', features, prereqs⟩
      rw [known, Option.some.injEq] at known'
      subst known'
      exact ⟨features, prereqs⟩
  simp only [evaluateLevel, known, Option.getD_some]
  refine ⟨kept.cons isSat, ⟨_, rfl, rfl, isSat⟩, ?_⟩
  by_cases set : Satisfied f lvl ∧ ev.highestLevel = lit "v8.0" ∧ lvl ≠ lit "v8.0"
  · exact .inl ⟨set.1, set.2.1, set.2.2, if_pos ⟨isSat.mpr set.1, set.2⟩⟩
  · exact .inr ⟨set, if_neg fun h => set ⟨isSat.mp h.1, h.2⟩⟩

/-- The first satisfied tier of a list, or the baseline if there is none above it. -/
inductive FirstSatisfied (f : ARM64Features) (levels : List Bytes) : Bytes → Prop
  | none : (∀ l ∈ levels, l ≠ lit "v8.0" → ¬ Satisfied f l) → FirstSatisfied f levels (lit "v8.0")
  | some {before : List Bytes} {level : Bytes} {after : List Bytes} :
      levels = before ++ level :: after → Satisfied f level →
      (∀ l ∈ before, l ≠ lit "v8.0" → ¬ Satisfied f l) → FirstSatisfied f levels level

theorem FirstSatisfied.skip {lvl : Bytes} {rest : List Bytes} (first : FirstSatisfied f rest level)
    (skipped : lvl ≠ lit "v8.0" → ¬ Satisfied f lvl) :
    FirstSatisfied f (lvl :: rest) level := by
  cases first with
  | none nothing => exact .none (List.forall_mem_cons.mpr ⟨skipped, nothing⟩)
  | some split sat nothing =>
    exact .some (by rw [split, List.cons_append]) sat (List.forall_mem_cons.mpr ⟨skipped, nothing⟩)

theorem evaluate_fold {levels : List Bytes} (known : ∀ l ∈ levels, ∃ req, arm64Requirement l = some req) :
    ∀ ev : Evaluation, ev.cache.Sound f →
      (levels.foldl (evaluateLevel f) ev).cache.Sound f ∧
      (∃ found, (levels.foldl (evaluateLevel f) ev).statuses = ev.statuses ++ found ∧
        found.map (·.level) = levels ∧ ∀ status ∈ found, status.Right f) ∧
      (ev.highestLevel ≠ lit "v8.0" →
        (levels.foldl (evaluateLevel f) ev).highestLevel = ev.highestLevel) ∧
      (ev.highestLevel = lit "v8.0" →
        FirstSatisfied f levels (levels.foldl (evaluateLevel f) ev).highestLevel) := by
  induction levels with
  | nil =>
    exact fun ev sound => ⟨sound, ⟨[], by simp⟩, fun _ => rfl, fun base => base ▸ .none (by simp)⟩
  | cons lvl rest ih =>
    intro ev sound
    rw [List.forall_mem_cons] at known
    obtain ⟨req, knownLvl⟩ := known.1
    obtain ⟨kept, ⟨status, added, named, right⟩, step⟩ := evaluateLevel_spec sound knownLvl
    obtain ⟨keptRest, ⟨found, appended, names, all⟩, fixed, first⟩ := ih known.2 _ kept
    rw [List.foldl_cons]
    refine ⟨keptRest, ⟨status :: found, ?_, ?_, ?_⟩, fun set => ?_, fun base => ?_⟩
    · rw [appended, added, List.append_assoc, List.singleton_append]
    · rw [List.map_cons, named, names]
    · exact List.forall_mem_cons.mpr ⟨right, all⟩
    · rcases step with ⟨-, base, -⟩ | ⟨-, same⟩
      · exact absurd base set
      · rw [fixed (by rwa [same]), same]
    · rcases step with ⟨sat, -, other, found⟩ | ⟨unsat, same⟩
      · rw [fixed (by rwa [found]), found]
        exact .some (List.nil_append _).symm sat (by simp)
      · have skipped : lvl ≠ lit "v8.0" → ¬ Satisfied f lvl := fun other sat =>
          unsat ⟨sat, base, other⟩
        exact (first (same.trans base)).skip skipped

/-- The rank of an ARM64 tier name. -/
def tierRank (tier : Bytes) : Int := (arm64Ranks.lookup tier).getD rankUnknown

theorem Satisfied.tierName (satisfied : Satisfied f level) :
    level ∈ arm64OrderedLevels := by
  obtain ⟨known, -, -⟩ := satisfied
  have all : ∀ t ∈ arm64Ranks.map Prod.fst, t ∈ arm64OrderedLevels := by decide +kernel
  exact all level (requirement_tier known)

/-- The level detection settles on. -/
structure Detected (f : ARM64Features) (level : Bytes) : Prop where
  tier : level ∈ arm64OrderedLevels
  satisfied : level = lit "v8.0" ∨ Satisfied f level
  highest : ∀ l, Satisfied f l → tierRank l ≤ tierRank level

theorem baseline_lowest : ∀ l ∈ arm64OrderedLevels, tierRank (lit "v8.0") ≤ tierRank l := by
  decide +kernel

/-- The tiers are listed from the highest down. -/
theorem FirstSatisfied.detected (first : FirstSatisfied f arm64OrderedLevels level) :
    Detected f level := by
  have order : arm64OrderedLevels.Pairwise fun a b => tierRank b ≤ tierRank a := by decide +kernel
  cases first with
  | none nothing =>
    refine ⟨by decide, .inl rfl, fun l sat => ?_⟩
    by_cases baseline : l = lit "v8.0"
    · rw [baseline]
    · exact absurd sat (nothing l sat.tierName baseline)
  | @some before level after split sat nothing =>
    have mem : level ∈ arm64OrderedLevels := by rw [split]; simp
    refine ⟨mem, .inr sat, fun l other => ?_⟩
    by_cases baseline : l = lit "v8.0"
    · rw [baseline]
      exact baseline_lowest level mem
    · have place := other.tierName
      rw [split, List.mem_append, List.mem_cons] at place
      rw [split, List.pairwise_append, List.pairwise_cons] at order
      rcases place with earlier | rfl | later
      · exact absurd other (nothing l earlier baseline)
      · exact Int.le_refl _
      · exact order.2.1.1 l later

theorem Detected.unique {level' : Bytes} (one : Detected f level) (other : Detected f level') :
    level = level' := by
  have distinct : ∀ a ∈ arm64OrderedLevels, ∀ b ∈ arm64OrderedLevels, tierRank a = tierRank b → a = b := by
    decide +kernel
  have below : ∀ {l l'}, Detected f l → Detected f l' → tierRank l ≤ tierRank l' := by
    intro l l' low high
    rcases low.satisfied with rfl | satisfied
    · exact baseline_lowest l' high.tier
    · exact high.highest l satisfied
  exact distinct _ one.tier _ other.tier (le_antisymm (below one other) (below other one))

theorem evaluateARM64Detailed_fold (f : ARM64Features) :
    ((evaluateARM64Detailed f).2.map (·.level) = arm64OrderedLevels ∧
      ∀ status ∈ (evaluateARM64Detailed f).2, status.Right f) ∧
    FirstSatisfied f arm64OrderedLevels (evaluateARM64Detailed f).1 := by
  have known : ∀ l ∈ arm64OrderedLevels, ∃ req, arm64Requirement l = some req := by
    have decided : ∀ l ∈ arm64OrderedLevels, (arm64Requirement l).isSome = true := by decide +kernel
    exact fun l mem => Option.isSome_iff_exists.mp (decided l mem)
  have result : (evaluateARM64Detailed f).1 =
      (arm64OrderedLevels.foldl (evaluateLevel f) ⟨[], [], lit "v8.0"⟩).highestLevel := by
    rw [evaluateARM64Detailed]
    dsimp only
    split
    · rename_i unchanged
      exact unchanged.1.symm
    · rfl
  obtain ⟨-, ⟨found, statuses, names, right⟩, -, first⟩ := evaluate_fold (f := f) known
    ⟨[], [], lit "v8.0"⟩ (fun _ _ found => by cases found)
  have listed : (evaluateARM64Detailed f).2 = found := statuses
  rw [result, listed]
  exact ⟨⟨names, right⟩, first rfl⟩

theorem evaluateARM64Detailed_spec (f : ARM64Features) : Detected f (evaluateARM64Detailed f).1 :=
  (evaluateARM64Detailed_fold f).2.detected

theorem firstLevel_first (levels : List Bytes) : ∀ cache, SatisfiedCache.Sound f cache →
    FirstSatisfied f levels (firstLevel f levels cache) := by
  induction levels with
  | nil => exact fun _ _ => .none (by simp)
  | cons lvl rest ih =>
    intro cache sound
    obtain ⟨answer, kept⟩ :=
      checkARM64LevelSatisfied_spec requirementDepth lvl cache [] (tierIndex_lt_depth lvl) sound (by simp)
    have later := ih _ kept
    rw [firstLevel]
    dsimp only
    split
    · rename_i sat
      exact .some (List.nil_append _).symm (answer.mp sat) (by simp)
    · rename_i unsat
      exact later.skip fun _ satisfied => unsat (answer.mpr satisfied)

theorem evaluateARM64_spec (f : ARM64Features) : Detected f (evaluateARM64 f) :=
  (firstLevel_first _ [] fun _ _ found => by cases found).detected

/-! ## More features -/

theorem featureList_mono {Flag : Type} {names : List (Flag × Bytes)} {f g : Flag → Bool}
    (contained : Contained f g) : featureList names f ⊆ featureList names g := by
  intro name mem
  obtain ⟨entry, listed, rfl⟩ := List.mem_map.mp mem
  rw [List.mem_filter] at listed
  exact List.mem_map_of_mem (List.mem_filter.mpr ⟨listed.1, contained _ listed.2⟩)

theorem extractARM64FeatureList_mono (contained : Contained f g) :
    extractARM64FeatureList f ⊆ extractARM64FeatureList g := by
  simp only [extractARM64FeatureList, appendCoreFeatureList, appendCryptoFeatureList,
    appendSIMDFeatureList, List.nil_append]
  intro name mem
  simp only [List.mem_append] at mem ⊢
  exact mem.imp (Or.imp (featureList_mono contained ·) (featureList_mono contained ·))
    (featureList_mono contained ·)

theorem evaluateARM64Detailed_mono (contained : Contained f g) :
    tierRank (evaluateARM64Detailed f).1 ≤ tierRank (evaluateARM64Detailed g).1 := by
  have low := evaluateARM64Detailed_spec f
  have high := evaluateARM64Detailed_spec g
  rcases low.satisfied with baseline | satisfied
  · rw [baseline]
    exact baseline_lowest _ high.tier
  · exact high.highest _ (satisfied.mono contained)

/-- The position of an AMD64 tier. -/
def amd64Rank (tier : Bytes) : Int := (amd64Ranks.lookup tier).getD rankUnknown

theorem evaluateAMD64_mono {f g : X86Features} (contained : Contained f g) :
    amd64Rank (evaluateAMD64 f) ≤ amd64Rank (evaluateAMD64 g) ∧
      evaluateAMD64 f ∈ amd64Ranks.map Prod.fst := by
  have ranks : amd64Rank (lit "v1") = 1 ∧ amd64Rank (lit "v2") = 2 ∧ amd64Rank (lit "v3") = 3 ∧
      amd64Rank (lit "v4") = 4 := by decide +kernel
  have all : ∀ flag, f flag = true → g flag = true := contained
  simp only [evaluateAMD64]
  split_ifs <;> simp_all [amd64Ranks]

end Microfat.Microarch
