/-
# Microfat.Microarch.Levels — architectures, tiers and their requirements

Levels are strings.  `normalize` brings every accepted spelling of a tier to its
normal form and `rank` reads the tier's position off the normal form; a level is
a tier of an architecture exactly when its rank is not `rankUnknown`.  Ranks are
injective on normal forms (`rank_injective`): two levels of one known
architecture with the same known rank have the same normal form.

The ARM64 tiers form a graph of prerequisites.  `collectARM64Requirements` walks
it from one tier and collects every feature on the way; `hostSupports` asks for
that set.  The source recurses without a bound because the table is acyclic; the
model recurses on a depth, and `requirementDepth` is deep enough for every tier
(`collectAt_collects`).
-/
import Microfat.Theory.Runes
import Microfat.Sentinels

namespace Microfat.Microarch

open Theory

set_option autoImplicit false

/-! ## Names -/

def archAMD64 : Bytes := lit "amd64"
def archARM64 : Bytes := lit "arm64"

/-- The canonical names and aliases `Rank` and `canonicalArch` accept. -/
def amd64Names : List Bytes := [archAMD64, lit "x86_64", lit "x86-64"]
def arm64Names : List Bytes := [archARM64, lit "aarch64"]

def rankUnknown : Int := -1
def rankBaseline : Int := 1
def rankAMD64v3 : Int := 3
def rankAMD64v4 : Int := 4

def amd64Ranks : List (Bytes × Int) :=
  [(lit "v1", 1), (lit "v2", 2), (lit "v3", rankAMD64v3), (lit "v4", rankAMD64v4)]

def arm64Ranks : List (Bytes × Int) :=
  [(lit "v8.0", 80), (lit "v8.1", 81), (lit "v8.2", 82), (lit "v8.3", 83), (lit "v8.4", 84),
   (lit "v8.5", 85), (lit "v8.6", 86), (lit "v8.7", 87), (lit "v8.8", 88), (lit "v8.9", 89),
   (lit "v9.0", 90), (lit "v9.1", 91), (lit "v9.2", 92), (lit "v9.3", 93), (lit "v9.4", 94),
   (lit "v9.5", 95)]

/-! ## Normal forms and ranks -/

/-- The prefixes `Normalize` removes, each at most once and in this order. -/
def levelPrefixes : List Bytes :=
  [lit "linux_", lit "darwin_", lit "windows_", lit "amd64_", lit "amd64-", lit "arm64_",
   lit "arm64-", lit "x86_64_", lit "x86_64-", lit "x86-64_", lit "x86-64-", lit "aarch64_",
   lit "aarch64-"]

/-- `Normalize` after trimming and lower-casing. -/
def stripLevel (lowered : Bytes) : Bytes :=
  let l := levelPrefixes.foldl trimPrefix lowered
  if l = [] then lit "v1"
  else if (lit "v").isPrefixOf l then l
  else lit "v" ++ l

section

variable [CaseTable]

def normalize (level : Bytes) : Bytes := stripLevel (toLower (trimSpace level))

def canonicalArch (arch : Bytes) : Bytes :=
  let lower := toLower arch
  if lower = lit "aarch64" then archARM64
  else if lower = lit "x86_64" ∨ lower = lit "x86-64" then archAMD64
  else lower

/-- The tier table `Rank` switches to for an architecture name. -/
def rankTable (arch : Bytes) : List (Bytes × Int) :=
  let lower := toLower arch
  if lower ∈ amd64Names then amd64Ranks
  else if lower ∈ arm64Names then arm64Ranks
  else [(lit "v1", rankBaseline)]

def rank (arch level : Bytes) : Int :=
  ((rankTable arch).lookup (normalize level)).getD rankUnknown

end

/-! ## ARM64 requirements -/

/-- The part of the source's `LevelRequirement` that compatibility checks read. -/
structure LevelRequirement where
  level : Bytes
  prereqs : List Bytes
  requiredFeatures : List Bytes

def arm64LevelRequirements : List LevelRequirement :=
  [⟨lit "v8.0", [], [lit "fp", lit "asimd"]⟩,
   ⟨lit "v8.1", [lit "v8.0"], [lit "atomics", lit "crc32"]⟩,
   ⟨lit "v8.2", [lit "v8.1"], [lit "fphp", lit "asimdhp"]⟩,
   ⟨lit "v8.3", [lit "v8.2"], [lit "jscvt", lit "fcma", lit "lrcpc"]⟩,
   ⟨lit "v8.4", [lit "v8.3"], [lit "dcpop", lit "asimddp"]⟩,
   ⟨lit "v8.5", [lit "v8.4"], [lit "dit"]⟩,
   ⟨lit "v8.6", [lit "v8.5"], [lit "i8mm", lit "bf16"]⟩,
   ⟨lit "v8.7", [lit "v8.6"], [lit "wfxt"]⟩,
   ⟨lit "v8.8", [lit "v8.7"], [lit "mops", lit "nmi", lit "hbc"]⟩,
   ⟨lit "v8.9", [lit "v8.8"], [lit "gcs", lit "the"]⟩,
   ⟨lit "v9.0", [lit "v8.5"], [lit "sve"]⟩,
   ⟨lit "v9.1", [lit "v9.0", lit "v8.6"], []⟩,
   ⟨lit "v9.2", [lit "v9.1"], [lit "sve2"]⟩,
   ⟨lit "v9.3", [lit "v9.2"], [lit "sme"]⟩,
   ⟨lit "v9.4", [lit "v9.3"], []⟩,
   ⟨lit "v9.5", [lit "v9.4"], [lit "sme2"]⟩]

/-- `arm64RequirementsMap`. -/
def arm64Requirement (level : Bytes) : Option LevelRequirement :=
  arm64LevelRequirements.find? fun req => req.level = level

/-- Collect the features of `level` and its prerequisites into the set
`features`; `none` when a level on the way is not in the table. -/
def collectAt : Nat → Bytes → List Bytes → Option (List Bytes)
  | 0, _, _ => none
  | depth + 1, level, features => do
      let req ← arm64Requirement level
      let features ← req.prereqs.foldlM (fun acc prerequisite => collectAt depth prerequisite acc)
        features
      pure (req.requiredFeatures.foldl (fun acc feature => acc.insert feature) features)

def requirementDepth : Nat := 17

def collectARM64Requirements (level : Bytes) (features : List Bytes) : Option (List Bytes) :=
  collectAt requirementDepth level features

/-! ## Hosts -/

/-- The part of the source's `Info` that selection reads. -/
structure Info where
  os : Bytes
  arch : Bytes
  level : Bytes
  features : List Bytes

def hostSupports [CaseTable] (host : Info) (level : Bytes) : Bool :=
  if canonicalArch host.arch ≠ archARM64 then
    let r := rank host.arch level
    0 ≤ r && r ≤ rank host.arch host.level
  else match collectARM64Requirements (normalize level) [] with
    | none => false
    | some required => (host.features.foldl (fun acc feature => acc.filter (· ≠ feature)) required) = []

/-! ## Facts -/

/-- The position of a level in the table; `arm64LevelRequirements.length` when absent. -/
def tierIndex (level : Bytes) : Nat := arm64LevelRequirements.findIdx fun req => req.level = level

/-- The table lists every prerequisite before the tier that names it. -/
theorem prereqs_earlier : ∀ req ∈ arm64LevelRequirements, ∀ p ∈ req.prereqs,
    tierIndex p < tierIndex req.level := by
  decide +kernel

theorem collectAt_known {depth : Nat} {level : Bytes} {features required : List Bytes}
    (collected : collectAt depth level features = some required) :
    ∃ req, arm64Requirement level = some req := by
  cases depth with
  | zero => simp [collectAt] at collected
  | succ depth =>
    cases found : arm64Requirement level with
    | none => simp [collectAt, found] at collected
    | some req => exact ⟨req, rfl⟩

theorem lookup_mem {table : List (Bytes × Int)} {key : Bytes} {v : Int}
    (found : table.lookup key = some v) : (key, v) ∈ table := by
  induction table with
  | nil => simp at found
  | cons entry table ih =>
    obtain ⟨k, w⟩ := entry
    by_cases same : key = k
    · subst same
      simp at found
      simp [found]
    · have ne : (key == k) = false := by simpa using same
      rw [List.lookup_cons, ne] at found
      exact List.mem_cons_of_mem _ (ih found)

/-- The ARM64 requirements name exactly ARM64 tiers. -/
theorem requirement_tier {level : Bytes} {req : LevelRequirement}
    (found : arm64Requirement level = some req) : level ∈ arm64Ranks.map Prod.fst := by
  have listed : req ∈ arm64LevelRequirements := List.mem_of_find?_eq_some found
  have named : req.level = level := by simpa using List.find?_some found
  have tiers : ∀ r ∈ arm64LevelRequirements, r.level ∈ arm64Ranks.map Prod.fst := by
    decide +kernel
  rw [← named]
  exact tiers req listed

section

variable [CaseTable]

/-- Tier names are their own normal forms. -/
theorem normalize_tier {t : Bytes}
    (tier : t ∈ amd64Ranks.map Prod.fst ++ arm64Ranks.map Prod.fst) : normalize t = t := by
  have ascii : ∀ t ∈ amd64Ranks.map Prod.fst ++ arm64Ranks.map Prod.fst,
      isAscii (trimSpace t) = true ∧ stripLevel ((trimSpace t).map lowerByte) = t := by
    decide +kernel
  rw [normalize, toLower_ascii (ascii t tier).1]
  exact (ascii t tier).2

theorem rankTable_known (arch : Bytes) :
    rankTable arch = amd64Ranks ∨ rankTable arch = arm64Ranks ∨
      rankTable arch = [(lit "v1", rankBaseline)] := by
  unfold rankTable
  dsimp only
  split
  · exact Or.inl rfl
  · split
    · exact Or.inr (Or.inl rfl)
    · exact Or.inr (Or.inr rfl)

/-- Ranks determine tiers within a table. -/
theorem rankTable_injective {arch : Bytes} :
    ∀ a ∈ rankTable arch, ∀ b ∈ rankTable arch, a.2 = b.2 → a = b := by
  have distinct : ((rankTable arch).map Prod.snd).Nodup := by
    rcases rankTable_known arch with h | h | h <;> rw [h] <;> decide
  intro a ha b hb same
  exact List.inj_on_of_nodup_map distinct ha hb same

theorem rank_cases (arch level : Bytes) :
    rank arch level = rankUnknown ∨ (normalize level, rank arch level) ∈ rankTable arch := by
  unfold rank
  cases found : (rankTable arch).lookup (normalize level) with
  | none => exact Or.inl rfl
  | some v => exact Or.inr (lookup_mem found)

theorem rank_mem {arch level : Bytes} (known : 0 ≤ rank arch level) :
    (normalize level, rank arch level) ∈ rankTable arch := by
  rcases rank_cases arch level with h | h
  · rw [h] at known; exact absurd known (by decide)
  · exact h

/-- The normal form of a level of known rank is a tier name. -/
theorem rank_tier {arch level : Bytes} (known : 0 ≤ rank arch level) :
    normalize level ∈ (rankTable arch).map Prod.fst := by
  have named := List.mem_map_of_mem (f := Prod.fst) (rank_mem known)
  simpa only using named

theorem rank_injective {arch a b : Bytes} (known : 0 ≤ rank arch a)
    (same : rank arch a = rank arch b) : normalize a = normalize b := by
  have known' : 0 ≤ rank arch b := by rw [← same]; exact known
  have entry := rankTable_injective _ (rank_mem known) _ (rank_mem known') same
  exact (Prod.mk.inj entry).1

end

/-! ## Normal forms are normal -/

section

variable [CaseTable]

theorem lowerRune_v : lowerRune 118 = 118 := by
  rw [lowerRune, if_pos (by decide), if_neg (by decide)]

/-- A normal form is a lower-case string that starts with `v` and has no space at
its end. -/
theorem normalize_runes [LawfulCase] (level : Bytes) :
    ∃ rest, normalize level = encodeRunes (118 :: rest) ∧ Lowered (118 :: rest) ∧
      ∀ rs r, 118 :: rest = rs ++ [r] → isSpace r = false := by
  have ascii : ∀ p ∈ levelPrefixes, isAscii p = true := by decide +kernel
  have lowered := lowered_runes (trimSpace level)
  obtain ⟨gone, rest, whole, stripped⟩ :=
    foldl_trimPrefix_encodeRunes ascii fun r mem => (lowered r mem).1
  rw [whole] at lowered
  have kept : Lowered rest := fun r mem => lowered r (List.mem_append_right gone mem)
  have v : Scalar 118 ∧ lowerRune 118 = 118 := ⟨.inl (by decide), lowerRune_v⟩
  -- what is left after the prefixes ends where the trimmed level ended
  have last : ∀ rs r, rest = rs ++ [r] → isSpace r = false := by
    rintro rs r rfl
    rw [← List.append_assoc] at whole
    obtain ⟨front, back, split, -, ends⟩ := List.map_eq_append_iff.mp whole
    obtain ⟨r', rfl, rfl⟩ := List.map_eq_singleton_iff.mp ends
    have plain := trimSpace_getLast level split
    cases space : isSpace (lowerRune r') with
    | false => rfl
    | true =>
      rw [LawfulCase.space r' (runes_scalar _ r' (by rw [split]; simp)) space] at plain
      cases plain
  rw [normalize, toLower_runes, stripLevel, whole]
  rw [whole] at stripped
  rw [stripped]
  split
  · have digit : Scalar 49 ∧ lowerRune 49 = 49 :=
      ⟨.inl (by decide), by rw [lowerRune, if_pos (by decide), if_neg (by decide)]⟩
    refine ⟨[49], rfl, List.forall_mem_cons.mpr ⟨v, List.forall_mem_singleton.mpr digit⟩, ?_⟩
    intro rs r ends
    have : r = 49 := by
      have := congrArg List.getLast? ends
      simpa using this.symm
    rw [this]
    decide
  · rename_i nonempty
    split
    · rename_i front
      obtain ⟨tail, rfl, -⟩ := encodeRunes_prefix (by decide) (fun r mem => (kept r mem).1) front
      exact ⟨tail, rfl, kept, last⟩
    · refine ⟨rest, rfl, List.forall_mem_cons.mpr ⟨v, kept⟩, ?_⟩
      intro rs r ends
      cases rs with
      | nil =>
        obtain ⟨-, rfl⟩ := List.cons_eq_cons.mp ends
        exact absurd rfl nonempty
      | cons head rs => exact last rs r (List.cons_eq_cons.mp ends).2

omit [CaseTable] in
theorem stripLevel_v (tail : Bytes) : stripLevel (118 :: tail) = 118 :: tail := by
  have heads : ∀ p ∈ levelPrefixes, ∃ c p', p = c :: p' ∧ c ≠ 118 := by
    have decided : ∀ p ∈ levelPrefixes, p.head?.any (· ≠ 118) = true := by decide +kernel
    intro p mem
    cases p with
    | nil => exact absurd (decided _ mem) (by decide)
    | cons c p => exact ⟨c, p, rfl, by simpa using decided _ mem⟩
  have kept : ∀ ps : List Bytes, (∀ p ∈ ps, ∃ c p', p = c :: p' ∧ c ≠ 118) →
      ps.foldl trimPrefix (118 :: tail) = 118 :: tail := by
    intro ps
    induction ps with
    | nil => exact fun _ => rfl
    | cons p ps ih =>
      intro all
      obtain ⟨⟨c, p', rfl, other⟩, later⟩ := List.forall_mem_cons.mp all
      rw [List.foldl_cons, trimPrefix, if_neg, ih later]
      simp [List.isPrefixOf_cons_cons, other]
  rw [stripLevel, kept _ heads]
  simp [lit]

/-- **Normalising twice is normalising once.** -/
theorem normalize_idem [LawfulCase] (level : Bytes) :
    normalize (normalize level) = normalize level := by
  obtain ⟨rest, form, lowered, last⟩ := normalize_runes level
  have runesForm : runes (encodeRunes (118 :: rest)) = 118 :: rest :=
    runes_encodeRunes fun r mem => (lowered r mem).1
  have trimmed : trimSpace (encodeRunes (118 :: rest)) = encodeRunes (118 :: rest) := by
    apply trimSpace_eq_self
    · intro r rs first
      rw [runesForm, List.cons_eq_cons] at first
      rw [← first.1]
      decide
    · intro rs r ends
      rw [runesForm] at ends
      exact last rs r ends
  rw [form, normalize, trimmed, toLower_lowered lowered]
  exact stripLevel_v (encodeRunes rest)

end

/-! ## What a host supports -/

theorem foldl_filter_eq_nil (features required : List Bytes) :
    features.foldl (fun acc feature => acc.filter (· ≠ feature)) required = [] ↔
      ∀ f ∈ required, f ∈ features := by
  induction features generalizing required with
  | nil => simp [List.eq_nil_iff_forall_not_mem]
  | cons feature features ih =>
    rw [List.foldl_cons, ih]
    simp only [List.mem_filter, decide_eq_true_eq, List.mem_cons]
    constructor
    · intro rest f mem
      by_cases same : f = feature
      · exact .inl same
      · exact .inr (rest f ⟨mem, same⟩)
    · intro all f mem
      exact (all f mem.1).resolve_left mem.2

/-- An ARM64 host supports a level when it has every feature the tier requires. -/
theorem hostSupports_arm64 [CaseTable] {host : Info} (arm : canonicalArch host.arch = archARM64)
    (level : Bytes) : hostSupports host level = true ↔
      ∃ required, collectARM64Requirements (normalize level) [] = some required ∧
        ∀ f ∈ required, f ∈ host.features := by
  rw [hostSupports, if_neg (by simpa using arm)]
  cases collectARM64Requirements (normalize level) [] with
  | none => simp
  | some required =>
    simp only [decide_eq_true_eq, Option.some.injEq, exists_eq_left']
    exact foldl_filter_eq_nil host.features required

end Microfat.Microarch
