/-
# Microfat.Bench.Schedule — a counterbalanced order of trials

`Schedule` runs every configuration once in each block.  Within a block the
configurations follow a shuffled order, rotated by the number of the block, and the
order is shuffled anew after as many blocks as there are configurations.  The random
source is a parameter that returns any permutations.

* `scheduleBlocks_trials`: what the loops build, block by block and place by place;
* `schedule_counterbalanced`: each block is a permutation of the configurations, each
  group of blocks is a Latin square, and identifiers and positions number the trials.
-/
import Microfat.Theory.Strconv
import Microfat.Sentinels

namespace Microfat.Bench

open Theory

set_option autoImplicit false

/-! ## The source -/

/-- `schema.Configuration`, of which only the identifier is read. -/
structure Configuration where
  id : Bytes

structure ScheduledTrial where
  id : Bytes
  block : Nat
  position : Nat
  configurationID : Bytes

/-- `rand.NewPCG` and `Rand.Perm`. -/
structure RandSource where
  State : Type
  newPCG : (seed1 seed2 : UInt64) → State
  perm : (n : Nat) → State → Equiv.Perm (Fin n) × State

def maxTrials : Nat := 10000

def scheduleStream : UInt64 := 0x853c49e6748fea9b

/-- The loop over the identifiers, with those seen so far. -/
def checkIDs : List Bytes → List Configuration → Option Err
  | _, [] => none
  | seen, cfg :: rest =>
    if cfg.id = [] || seen.contains cfg.id then some (.new "empty or duplicate configuration id")
    else checkIDs (cfg.id :: seen) rest

def trialID (n : Nat) : Bytes := lit "trial-" ++ zeroPadded 6 n

section

variable (R : RandSource) (configs : List Configuration) (some : 0 < configs.length)

def placeTrial (block : Nat) (order : Equiv.Perm (Fin configs.length)) (result : List ScheduledTrial)
    (position : Nat) : List ScheduledTrial :=
  let cfg := configs.get (order ⟨(position + block) % configs.length, Nat.mod_lt _ some⟩)
  result ++ [⟨trialID result.length, block, result.length, cfg.id⟩]

/-- The variables of the loop over the blocks. -/
structure Progress where
  rng : R.State
  order : Equiv.Perm (Fin configs.length)
  result : List ScheduledTrial

def scheduleBlock (p : Progress R configs) (block : Nat) : Progress R configs :=
  let (order, rng) :=
    if 0 < block && block % configs.length = 0 then R.perm configs.length p.rng else (p.order, p.rng)
  ⟨rng, order, (List.range configs.length).foldl (placeTrial configs some block order) p.result⟩

def scheduleBlocks (seed : UInt64) (blocks : Nat) : Progress R configs :=
  let (order, rng) := R.perm configs.length (R.newPCG seed (seed ^^^ scheduleStream))
  (List.range blocks).foldl (scheduleBlock R configs some) ⟨rng, order, []⟩

end

theorem configs_some {configs : List Configuration} (enough : ¬ configs.length < 2) : 0 < configs.length := by
  omega

def schedule (R : RandSource) (configs : List Configuration) (blocks : Int) (seed : UInt64) :
    Except Err (List ScheduledTrial) :=
  if few : configs.length < 2 then .error (.new "invalid schedule dimensions")
  else if blocks ≤ 0 || (maxTrials / configs.length : Nat) < blocks then
    .error (.new "invalid schedule dimensions")
  else
    match checkIDs [] configs with
    | some err => .error err
    | none => .ok (scheduleBlocks R configs (configs_some few) seed blocks.toNat).result

/-! ## What the loops build -/

theorem checkIDs_none {seen : List Bytes} {configs : List Configuration} (passed : checkIDs seen configs = none) :
    (configs.map (·.id)).Nodup ∧ ∀ cfg ∈ configs, cfg.id ∉ seen := by
  induction configs generalizing seen with
  | nil => simp
  | cons cfg rest ih =>
    rw [checkIDs] at passed
    split at passed
    · cases passed
    · rename_i fresh
      obtain ⟨distinct, unseen⟩ := ih passed
      simp only [Bool.or_eq_true, decide_eq_true_eq, List.contains_iff_mem, not_or] at fresh
      constructor
      · rw [List.map_cons, List.nodup_cons]
        refine ⟨?_, distinct⟩
        intro mem
        obtain ⟨other, there, same⟩ := List.mem_map.mp mem
        apply unseen other there
        rw [same]
        exact List.mem_cons_self
      · refine List.forall_mem_cons.mpr ⟨fresh.2, fun other later seen => ?_⟩
        exact unseen other later (List.mem_cons_of_mem _ seen)

section

variable (R : RandSource) (configs : List Configuration) (some : 0 < configs.length) (seed : UInt64)

/-- The shuffles, in the order they are drawn. -/
def draw : Nat → Equiv.Perm (Fin configs.length) × R.State
  | 0 => R.perm configs.length (R.newPCG seed (seed ^^^ scheduleStream))
  | k + 1 => R.perm configs.length (draw k).2

/-- Which configuration a block has at a place. -/
def configurationAt (block place : Nat) : Fin configs.length :=
  (draw R configs seed (block / configs.length)).1
    ⟨(place + block) % configs.length, Nat.mod_lt _ some⟩

def trialAt (block place : Nat) : ScheduledTrial :=
  ⟨trialID (block * configs.length + place), block, block * configs.length + place,
    (configs.get (configurationAt R configs some seed block place)).id⟩

/-- The trials of one block. -/
def blockTrials (block : Nat) : List ScheduledTrial :=
  (List.range configs.length).map (trialAt R configs some seed block)

def trials (blocks : Nat) : List ScheduledTrial := (List.range blocks).flatMap (blockTrials R configs some seed)

variable {R configs some seed}

/-- The loop over the places.  Induction on how many are done. -/
theorem foldl_placeTrial {block : Nat} {order : Equiv.Perm (Fin configs.length)}
    (current : order = (draw R configs seed (block / configs.length)).1) (result : List ScheduledTrial)
    (position : result.length = block * configs.length) (places : Nat) :
    (List.range places).foldl (placeTrial configs some block order) result =
      result ++ (List.range places).map (trialAt R configs some seed block) := by
  induction places with
  | zero => simp
  | succ places ih =>
    rw [List.range_succ, List.foldl_append, ih, List.map_append, ← List.append_assoc]
    show placeTrial configs some block order _ places = _
    rw [placeTrial, List.length_append, List.length_map, List.length_range, position, current]
    rfl

section

variable (blocks : Nat)

theorem trials_length : (trials R configs some seed blocks).length = blocks * configs.length := by
  simp [trials, blockTrials]

/-- Block `k` is run with the shuffle of its group: a new one after a whole group, and
otherwise the one of the block before. -/
theorem draw_next (k : Nat) (positive : 0 < configs.length) :
    (if 0 < k && k % configs.length = 0 then
        R.perm configs.length (draw R configs seed ((k - 1) / configs.length)).2
      else draw R configs seed ((k - 1) / configs.length)) = draw R configs seed (k / configs.length) := by
  by_cases anew : 0 < k ∧ k % configs.length = 0
  · have next : k / configs.length = (k - 1) / configs.length + 1 := by
      obtain ⟨g, rfl⟩ := Nat.dvd_of_mod_eq_zero anew.2
      obtain ⟨g, rfl⟩ : ∃ h, g = h + 1 := Nat.exists_eq_succ_of_ne_zero (by rintro rfl; simp at anew)
      rw [Nat.mul_div_cancel_left _ positive, Nat.add_right_cancel_iff]
      symm
      apply Nat.div_eq_of_lt_le <;> rw [Nat.mul_comm configs.length] <;> rw [Nat.succ_mul] <;> omega
    rw [if_pos (by simpa using anew), next, draw]
  · have same : k / configs.length = (k - 1) / configs.length := by
      rcases Nat.eq_zero_or_pos k with rfl | later
      · rfl
      · obtain ⟨j, rfl⟩ : ∃ j, k = j + 1 := ⟨k - 1, by omega⟩
        rw [Nat.succ_div, if_neg]
        · rfl
        · intro divides
          exact anew ⟨later, Nat.mod_eq_zero_of_dvd divides⟩
    rw [if_neg (by simpa using anew), same]

/-- **The loops build the trials.**  Before block `k` the shuffle is the one drawn for the
group of the block before. -/
theorem scheduleBlocks_trials :
    scheduleBlocks R configs some seed blocks =
      ⟨(draw R configs seed ((blocks - 1) / configs.length)).2,
        (draw R configs seed ((blocks - 1) / configs.length)).1, trials R configs some seed blocks⟩ := by
  induction blocks with
  | zero =>
    show (⟨_, _, []⟩ : Progress R configs) = _
    simp [draw, trials]
  | succ k ih =>
    have last : scheduleBlocks R configs some seed (k + 1) =
        scheduleBlock R configs some (scheduleBlocks R configs some seed k) k := by
      simp [scheduleBlocks, List.range_succ]
    rw [last, ih, scheduleBlock]
    simp only [Prod.mk.eta]
    rw [draw_next k some, foldl_placeTrial rfl _ (trials_length k), Nat.add_sub_cancel, trials, trials,
      List.range_succ, List.flatMap_append]
    simp [blockTrials]

/-! ## Blocks, groups and numbers -/

theorem mem_trials {blocks : Nat} {trial : ScheduledTrial} :
    trial ∈ trials R configs some seed blocks ↔
      ∃ block < blocks, ∃ place < configs.length, trial = trialAt R configs some seed block place := by
  simp only [trials, blockTrials, List.mem_flatMap, List.mem_map, List.mem_range]
  constructor
  · rintro ⟨block, below, place, inside, rfl⟩
    exact ⟨block, below, place, inside, rfl⟩
  · rintro ⟨block, below, place, inside, rfl⟩
    exact ⟨block, below, place, inside, rfl⟩

theorem trials_positions :
    (trials R configs some seed blocks).map (·.position) = List.range (blocks * configs.length) := by
  induction blocks with
  | zero => simp [trials]
  | succ k ih =>
    rw [trials] at ih
    rw [trials, List.range_succ, List.flatMap_append, List.map_append, ih, Nat.succ_mul, List.range_add]
    simp [blockTrials, trialAt, Function.comp_def]

theorem trials_ids : ((trials R configs some seed blocks).map (·.id)).Nodup := by
  have numbered : (trials R configs some seed blocks).map (·.id) =
      ((trials R configs some seed blocks).map (·.position)).map trialID := by
    rw [List.map_map]
    apply List.map_congr_left
    intro trial mem
    obtain ⟨block, -, place, -, rfl⟩ := mem_trials.mp mem
    rfl
  rw [numbered, trials_positions]
  apply List.Nodup.map _ List.nodup_range
  intro m n same
  exact zeroPadded_injective 6 (List.append_cancel_left same)

end

theorem trials_block (blocks block : Nat) :
    (trials R configs some seed blocks).filter (·.block = block) =
      if block < blocks then blockTrials R configs some seed block else [] := by
  have inBlock : ∀ k, ∀ trial ∈ blockTrials R configs some seed k, trial.block = k := by
    intro k trial mem
    obtain ⟨place, -, rfl⟩ := List.mem_map.mp mem
    rfl
  induction blocks with
  | zero => simp [trials]
  | succ k ih =>
    rw [trials] at ih
    rw [trials, List.range_succ, List.flatMap_append, List.filter_append, ih, List.flatMap_singleton]
    by_cases here : block = k
    · subst here
      rw [if_neg (Nat.lt_irrefl _), if_pos (Nat.lt_succ_self _), List.nil_append, List.filter_eq_self]
      exact fun trial mem => by simp [inBlock _ trial mem]
    · have none : (blockTrials R configs some seed k).filter (·.block = block) = [] := by
        rw [List.filter_eq_nil_iff]
        intro trial mem
        simp [inBlock k trial mem, Ne.symm here]
      rw [none, List.append_nil]
      by_cases below : block < k
      · rw [if_pos below, if_pos (by omega)]
      · rw [if_neg below, if_neg (by omega)]

/-- Rotating and shuffling the places is a permutation of the configurations. -/
theorem blockTrials_perm (block : Nat) :
    ((blockTrials R configs some seed block).map (·.configurationID)).Perm (configs.map (·.id)) := by
  have : NeZero configs.length := ⟨Nat.pos_iff_ne_zero.mp some⟩
  have rotated : (blockTrials R configs some seed block).map (·.configurationID) =
      ((List.finRange configs.length).map
        ((Equiv.addRight (Fin.ofNat configs.length block)).trans
          (draw R configs seed (block / configs.length)).1)).map fun i => (configs.get i).id := by
    rw [blockTrials, ← List.map_coe_finRange_eq_range, List.map_map, List.map_map, List.map_map]
    apply List.map_congr_left
    intro place _
    have index : (⟨(place + block) % configs.length, Nat.mod_lt _ some⟩ : Fin configs.length) =
        place + Fin.ofNat configs.length block := by
      apply Fin.ext
      simp [Fin.val_add]
    simp [trialAt, configurationAt, index]
  have all : (List.finRange configs.length).map (fun i => (configs.get i).id) = configs.map (·.id) := by
    conv_rhs => rw [← List.map_get_finRange configs]
    rw [List.map_map]
    rfl
  rw [rotated, ← all]
  exact (Equiv.Perm.map_finRange_perm _).map _

end

/-- Among the numbers of one group, one brings the sum to a given remainder. -/
theorem exists_unique_shift {n : Nat} (positive : 0 < n) (group place : Nat) {rest : Nat} (small : rest < n) :
    ∃! block, (group * n ≤ block ∧ block < (group + 1) * n) ∧ (place + block) % n = rest := by
  have width : (group + 1) * n = group * n + n := Nat.succ_mul group n
  refine ⟨group * n + (rest + (n - place % n)) % n, ⟨⟨Nat.le_add_right _ _, ?_⟩, ?_⟩, ?_⟩
  · have := Nat.mod_lt (rest + (n - place % n)) positive
    omega
  · have part := Nat.mod_lt place positive
    calc (place + (group * n + (rest + (n - place % n)) % n)) % n
        = (place % n + (rest + (n - place % n))) % n := by
          rw [Nat.add_left_comm, Nat.mul_comm, Nat.mul_add_mod, Nat.add_mod_mod, Nat.mod_add_mod]
      _ = (rest + n) % n := by
          congr 1
          omega
      _ = rest := by rw [Nat.add_mod_right, Nat.mod_eq_of_lt small]
  · rintro block ⟨⟨low, high⟩, sum⟩
    obtain ⟨shift, rfl⟩ : ∃ shift, block = group * n + shift := ⟨block - group * n, by omega⟩
    have inside : shift < n := by omega
    have residue : (place + shift) % n = rest := by
      rw [Nat.add_left_comm, Nat.mul_comm, Nat.mul_add_mod] at sum
      exact sum
    have cancelled : place % n + (rest + (n - place % n)) ≡ place % n + shift [MOD n] := by
      have part := Nat.mod_lt place positive
      show (place % n + (rest + (n - place % n))) % n = (place % n + shift) % n
      rw [show place % n + (rest + (n - place % n)) = rest + n by omega, Nat.add_mod_right, Nat.mod_eq_of_lt small,
        Nat.mod_add_mod, residue]
    have same := Nat.ModEq.add_left_cancel' (place % n) cancelled
    rw [show (rest + (n - place % n)) % n = shift % n from same, Nat.mod_eq_of_lt inside]

/-! ## The schedule -/

/-- What counterbalanced means: each block holds each configuration once; in each group of
blocks each configuration is once at each place; the trials are numbered. -/
structure Counterbalanced (configs : List Configuration) (blocks : Nat) (result : List ScheduledTrial) : Prop where
  complete : ∀ block < blocks,
    ((result.filter (·.block = block)).map (·.configurationID)).Perm (configs.map (·.id))
  latin : ∀ group, (group + 1) * configs.length ≤ blocks → ∀ place < configs.length, ∀ cfg ∈ configs,
    ∃! block, (group * configs.length ≤ block ∧ block < (group + 1) * configs.length) ∧
      ∃ trial ∈ result, trial.block = block ∧ trial.position = block * configs.length + place ∧
        trial.configurationID = cfg.id
  distinct : (result.map (·.id)).Nodup
  positions : result.map (·.position) = List.range (blocks * configs.length)

/-- **Every schedule is counterbalanced**, whatever the random source returns. -/
theorem schedule_counterbalanced (R : RandSource) (configs : List Configuration) (blocks : Int) (seed : UInt64)
    (result : List ScheduledTrial) (planned : schedule R configs blocks seed = .ok result) :
    Counterbalanced configs blocks.toNat result := by
  rw [schedule] at planned
  split_ifs at planned with many
  cases checked : checkIDs [] configs with
  | some err => rw [checked] at planned; cases planned
  | none =>
    rw [checked] at planned
    have some : 0 < configs.length := by omega
    have distinct := (checkIDs_none checked).1
    obtain rfl : trials R configs some seed blocks.toNat = result := by
      rw [scheduleBlocks_trials] at planned
      exact Except.ok.inj planned
    constructor
    · intro block below
      rw [trials_block, if_pos below]
      exact blockTrials_perm block
    · intro group whole place inside cfg mem
      obtain ⟨i, rfl⟩ := List.get_of_mem mem
      -- within the group one shuffle is in force, so only the rotation differs
      have shuffle : ∀ block, group * configs.length ≤ block → block < (group + 1) * configs.length →
          block / configs.length = group := fun block low high =>
        Nat.div_eq_of_lt_le low high
      have sameId : ∀ j : Fin configs.length, (configs.get j).id = (configs.get i).id ↔ j = i := by
        intro j
        refine ⟨fun same => ?_, fun same => by rw [same]⟩
        have one := List.inj_on_of_nodup_map distinct (configs.get_mem j) (configs.get_mem i) same
        exact (List.Nodup.of_map _ distinct).get_inj_iff.mp one
      have at_iff : ∀ block, group * configs.length ≤ block ∧ block < (group + 1) * configs.length →
          ((∃ trial ∈ trials R configs some seed blocks.toNat, trial.block = block ∧
            trial.position = block * configs.length + place ∧ trial.configurationID = (configs.get i).id) ↔
            (place + block) % configs.length = ((draw R configs seed group).1.symm i).val) := by
        rintro block ⟨low, high⟩
        have there : configurationAt R configs some seed block place = i ↔
            (place + block) % configs.length = ((draw R configs seed group).1.symm i).val := by
          rw [configurationAt, shuffle block low high, ← Equiv.eq_symm_apply, Fin.ext_iff]
        rw [← there, ← sameId]
        constructor
        · rintro ⟨trial, mem, rfl, position, configuration⟩
          obtain ⟨b, -, p, -, rfl⟩ := mem_trials.mp mem
          obtain rfl : p = place := Nat.add_left_cancel position
          exact configuration
        · intro configuration
          exact ⟨trialAt R configs some seed block place,
            mem_trials.mpr ⟨block, by omega, place, inside, rfl⟩, rfl, rfl, configuration⟩
      obtain ⟨block, ⟨within, sum⟩, unique⟩ :=
        exists_unique_shift some group place ((draw R configs seed group).1.symm i).isLt
      refine ⟨block, ⟨within, (at_iff block within).mpr sum⟩, ?_⟩
      rintro other ⟨within', placed⟩
      exact unique other ⟨within', (at_iff other within').mp placed⟩
    · exact trials_ids _
    · exact trials_positions _

/-- A source that always returns the order it was given. -/
def unshuffled : RandSource where
  State := Unit
  newPCG _ _ := ()
  perm _ _ := (Equiv.refl _, ())

theorem schedule_counterbalanced_two :
    Counterbalanced [⟨lit "a"⟩, ⟨lit "b"⟩] 2
      [⟨lit "trial-000000", 0, 0, lit "a"⟩, ⟨lit "trial-000001", 0, 1, lit "b"⟩,
        ⟨lit "trial-000002", 1, 2, lit "b"⟩, ⟨lit "trial-000003", 1, 3, lit "a"⟩] :=
  schedule_counterbalanced unshuffled _ 2 7 _ rfl

end Microfat.Bench
