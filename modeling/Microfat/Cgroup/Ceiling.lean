/-
# Microfat.Cgroup.Ceiling — the effective ceiling of a cgroup v2 hierarchy

What `readCgroupV2` finds for a clean absolute mount.  A directory is on the chain if it is
an ancestor of the target, or the target, and not above the mount (`OnChain`).  The code
opens files of those directories only.  It fails if the target cannot be resolved, and if
the first line of any `memory.max` or `memory.high` on the chain cannot be read or is
neither `max` nor a number (`Corrupt`).  Otherwise the effective ceiling is finite exactly
if one of those files holds a number, and it is then the least of them, zero included.

The files are read up to the end of their first line.  `readCgroupV2_further_lines` is a
file whose whole text is neither, and which is taken for no limit.
-/
import Microfat.Cgroup.Hierarchy

namespace Microfat.Cgroup

open Theory Metered

set_option autoImplicit false

/-! ## The chain -/

/-- The directory is the target or an ancestor of it, and not above the mount. -/
def OnChain (root target dir : Bytes) : Prop := (∃ k, dir = dirPath^[k] target) ∧ isSubpath root dir = true

theorem mem_chain {r u : List Bytes} (properR : ∀ c ∈ r, IsName c) (properU : ∀ c ∈ u, IsName c) {dir : Bytes} :
    dir ∈ chain r u ↔ OnChain (pathOf r) (pathOf (r ++ u)) dir := by
  have proper : ∀ c ∈ r ++ u, IsName c := fun c mem => (List.mem_append.mp mem).elim (properR c) (properU c)
  rw [chain, List.mem_map]
  constructor
  · rintro ⟨n, mem, rfl⟩
    rw [List.mem_reverse, List.mem_range] at mem
    have front : (r ++ u).take ((r ++ u).length - (u.length - n)) = r ++ u.take n := by
      rw [List.length_append, show r.length + u.length - (u.length - n) = r.length + n by omega,
        List.take_length_add_append]
    refine ⟨⟨u.length - n, ?_⟩, ?_⟩
    · rw [dirPath_iterate proper, front]
    · rw [isSubpath_pathOf properR fun c mem => (List.mem_append.mp mem).elim (properR c)
        fun mem => properU c (List.mem_of_mem_take mem)]
      exact List.prefix_append _ _
  · rintro ⟨⟨k, rfl⟩, inside⟩
    rw [dirPath_iterate proper] at inside ⊢
    have front := (isSubpath_pathOf properR fun c mem => proper c (List.mem_of_mem_take mem)).mp inside
    have long := front.length_le
    rw [List.length_take, List.length_append] at long
    refine ⟨u.length - k, ?_, ?_⟩
    · rw [List.mem_reverse, List.mem_range]
      omega
    · rw [List.length_append, show r.length + u.length - k = r.length + (u.length - k) by omega,
        List.take_length_add_append]

/-! ## What a memory file says -/

/-- The first line of the file is a number that is not negative. -/
def HoldsNumber (fs : FileSystem) (path : Bytes) (n : Int) : Prop :=
  ∃ text, trimmedFile fs path = .ok text ∧ parseInt text = some n ∧ 0 ≤ n

/-- The file is there and cannot be read, or its first line is neither `max` nor a number
that is not negative. -/
def Corrupt (fs : FileSystem) (path : Bytes) : Prop :=
  (∃ err, trimmedFile fs path = .error err ∧ Err.is err .osErrNotExist = false) ∨
    ∃ text, trimmedFile fs path = .ok text ∧ text ≠ lit "max" ∧ ∀ n, parseInt text = some n → n < 0

theorem parseInt_range {s : Bytes} {n : Int} (parsed : parseInt s = some n) (nonneg : 0 ≤ n) : InInt64 n := by
  rcases nonneg.eq_or_lt with rfl | positive
  · decide
  · exact ⟨by omega, ((parseInt_iff positive).mp parsed).1⟩

variable {fs : FileSystem}

/-- The least number of a set that may be empty. -/
def Least (least : Option Int64) (numbers : Set Int) : Prop :=
  match least with
  | none => numbers = ∅
  | some v => IsLeast numbers v.toInt

/-- A value read is the number of the file, if it has one, and the file is not corrupt. -/
theorem memoryValue_ok {dir name path : Bytes} {value : Option Int64}
    (read : memoryValue dir name (trimmedFile fs path) = .ok value) :
    ¬ Corrupt fs path ∧ Least value {n | HoldsNumber fs path n} := by
  cases content : trimmedFile fs path with
  | error err =>
    rw [content, memoryValue] at read
    split at read
    · rename_i absent
      cases read
      refine ⟨?_, Set.eq_empty_iff_forall_notMem.mpr ?_⟩
      · rintro (⟨err', same, present⟩ | ⟨text, same, -⟩)
        · rw [content] at same
          cases same
          rw [absent] at present
          cases present
        · rw [content] at same
          cases same
      · rintro n ⟨text, same, -⟩
        rw [content] at same
        cases same
    · cases read
  | ok text =>
    rw [content, memoryValue] at read
    have only : ∀ {text'}, trimmedFile fs path = .ok text' → text' = text := fun same => by
      rw [content] at same
      cases same
      rfl
    split at read
    · rename_i unlimited
      cases read
      refine ⟨?_, Set.eq_empty_iff_forall_notMem.mpr ?_⟩
      · rintro (⟨err', same, -⟩ | ⟨text', same, other, -⟩)
        · rw [content] at same
          cases same
        · exact other ((only same).trans unlimited)
      · rintro n ⟨text', same, parsed, -⟩
        rw [only same, unlimited, show parseInt (lit "max") = none by decide] at parsed
        cases parsed
    · split at read
      · cases read
      · split at read
        · cases read
        · rename_i val parsed
          split at read
          · cases read
          · rename_i nonneg
            cases read
            have exact := toInt_ofInt64 (parseInt_range parsed (not_lt.mp nonneg))
            refine ⟨?_, ⟨text, content, ?_⟩, ?_⟩
            · rintro (⟨err', same, -⟩ | ⟨text', same, -, negative⟩)
              · rw [content] at same
                cases same
              · rw [only same] at negative
                exact nonneg (negative val parsed)
            · rw [exact]
              exact ⟨parsed, not_lt.mp nonneg⟩
            · rintro n ⟨text', same, number, -⟩
              rw [only same, parsed] at number
              cases number
              exact exact.le

/-! ## Least values -/

theorem lower_least {a b : Option Int64} {numbers more : Set Int} (first : Least a numbers) (second : Least b more) :
    Least (lower a b) (numbers ∪ more) := by
  cases b with
  | none =>
    rw [show more = ∅ from second, Set.union_empty]
    cases a <;> exact first
  | some val =>
    cases a with
    | none =>
      rw [show numbers = ∅ from first, Set.empty_union]
      exact second
    | some v =>
      have both : IsLeast (numbers ∪ more) (min v.toInt val.toInt) := IsLeast.union first second
      rw [lower]
      split
      · rename_i smaller
        rwa [min_eq_right smaller.le] at both
      · rename_i larger
        rwa [min_eq_left (not_lt.mp larger)] at both

/-- The effective ceiling is the smaller of the two, although zero is also what stands for
none in the fields it is worked out from. -/
theorem memoryLimits_value {a b : Option Int64} (nonnegA : ∀ v, a = some v → 0 ≤ v.toInt)
    (nonnegB : ∀ v, b = some v → 0 ≤ v.toInt) :
    (memoryLimits a b).effectiveMemoryLimit = ((lower a b).getD 0, (lower a b).isSome) := by
  have zero : ∀ v : Int64, 0 = v.toInt → v = 0 := fun v same =>
    Int64.toInt_inj.mp (same.symm.trans (by decide))
  cases a with
  | none =>
    cases b with
    | none => decide
    | some high =>
      rcases (nonnegB high rfl).eq_or_lt with none | positive
      · rw [zero high none]
        decide
      · simp [memoryLimits, Limits.effectiveMemoryLimit, Limits.hasMemoryLimit, Limits.hasMemoryHigh,
          calculateEffectiveMemoryLimit, lower, positive, positive.ne']
  | some max =>
    rcases (nonnegA max rfl).eq_or_lt with none | positive
    · rw [zero max none]
      cases b with
      | none => decide
      | some high =>
        have least : ¬ high.toInt < (0 : Int64).toInt := not_lt.mpr (nonnegB high rfl)
        rw [lower, if_neg least]
        simp [memoryLimits, Limits.effectiveMemoryLimit, Limits.hasMemoryLimit]
    · cases b with
      | none =>
        simp [memoryLimits, Limits.effectiveMemoryLimit, Limits.hasMemoryLimit, Limits.hasMemoryHigh,
          calculateEffectiveMemoryLimit, lower, positive, positive.ne']
      | some high =>
        rcases (nonnegB high rfl).eq_or_lt with none | positive'
        · rw [zero high none]
          have least : (0 : Int64).toInt < max.toInt := positive
          rw [lower, if_pos least]
          simp [memoryLimits, Limits.effectiveMemoryLimit, Limits.hasMemoryHigh]
        · rw [lower]
          split
          · rename_i smaller
            simp [memoryLimits, Limits.effectiveMemoryLimit, Limits.hasMemoryLimit, Limits.hasMemoryHigh,
              calculateEffectiveMemoryLimit, positive, positive.ne', positive', positive'.ne', smaller]
          · rename_i larger
            simp [memoryLimits, Limits.effectiveMemoryLimit, Limits.hasMemoryLimit, Limits.hasMemoryHigh,
              calculateEffectiveMemoryLimit, positive, positive.ne', positive', positive'.ne', larger]

/-! ## The walks -/

/-- The files that are read in a directory. -/
def limitFiles : List Bytes := [cgroupV2MemoryMax, cgroupV2MemoryHigh, cgroupV2CPUMax]

/-- The files that bound the memory. -/
def memoryFiles : List Bytes := [cgroupV2MemoryMax, cgroupV2MemoryHigh]

/-- Only files of these directories were opened. -/
def OpenedIn (dirs opened : List Bytes) : Prop :=
  ∀ p ∈ opened, ∃ dir ∈ dirs, ∃ name ∈ limitFiles, p = cleanPath (joinPath dir name)

/-- The numbers of one memory file in these directories. -/
def numbersIn (fs : FileSystem) (name : Bytes) (dirs : List Bytes) : Set Int :=
  {n | ∃ dir ∈ dirs, HoldsNumber fs (joinPath dir name) n}

/-- What the walk knows of the directories it was in: no memory file is corrupt, and the
least values. -/
structure Walked (fs : FileSystem) (dirs : List Bytes) (acc : Option Int64 × Option Int64) : Prop where
  sound : ∀ dir ∈ dirs, ∀ name ∈ memoryFiles, ¬ Corrupt fs (joinPath dir name)
  max : Least acc.1 (numbersIn fs cgroupV2MemoryMax dirs)
  high : Least acc.2 (numbersIn fs cgroupV2MemoryHigh dirs)

theorem walked_nil : Walked fs [] (none, none) where
  sound := List.forall_mem_nil _
  max := Set.eq_empty_iff_forall_notMem.mpr fun _ ⟨_, mem, _⟩ => absurd mem List.not_mem_nil
  high := Set.eq_empty_iff_forall_notMem.mpr fun _ ⟨_, mem, _⟩ => absurd mem List.not_mem_nil

theorem numbersIn_append (name : Bytes) (dirs : List Bytes) (dir : Bytes) :
    numbersIn fs name (dirs ++ [dir]) = numbersIn fs name dirs ∪ {n | HoldsNumber fs (joinPath dir name) n} := by
  ext n
  simp only [numbersIn, List.mem_append, List.mem_singleton, Set.mem_ofPred_eq, Set.mem_union]
  constructor
  · rintro ⟨d, before | rfl, number⟩
    · exact .inl ⟨d, before, number⟩
    · exact .inr number
  · rintro (⟨d, before, number⟩ | number)
    · exact ⟨d, .inl before, number⟩
    · exact ⟨dir, .inr rfl, number⟩

/-- One directory more. -/
theorem Walked.step {dirs : List Bytes} {acc : Option Int64 × Option Int64} (walked : Walked fs dirs acc) {dir : Bytes}
    {maxVal highVal : Option Int64}
    (readMax : memoryValue dir cgroupV2MemoryMax (trimmedFile fs (joinPath dir cgroupV2MemoryMax)) = .ok maxVal)
    (readHigh : memoryValue dir cgroupV2MemoryHigh (trimmedFile fs (joinPath dir cgroupV2MemoryHigh)) = .ok highVal) :
    Walked fs (dirs ++ [dir]) (lower acc.1 maxVal, lower acc.2 highVal) := by
  obtain ⟨soundMax, leastMax⟩ := memoryValue_ok readMax
  obtain ⟨soundHigh, leastHigh⟩ := memoryValue_ok readHigh
  refine ⟨List.forall_mem_append.mpr ⟨walked.sound, List.forall_mem_singleton.mpr ?_⟩, ?_, ?_⟩
  · exact List.forall_mem_cons.mpr ⟨soundMax, List.forall_mem_singleton.mpr soundHigh⟩
  · rw [numbersIn_append]
    exact lower_least walked.max leastMax
  · rw [numbersIn_append]
    exact lower_least walked.high leastHigh

section Triples

variable {dirs : List Bytes} {dir : Bytes} (inside : dir ∈ dirs)

include inside

theorem readTrimmedFile_triple {name : Bytes} (listed : name ∈ limitFiles) (A : Prop) :
    Triple (fun o => OpenedIn dirs o ∧ A) (readTrimmedFile fs (joinPath dir name))
      (fun content o => content = trimmedFile fs (joinPath dir name) ∧ OpenedIn dirs o ∧ A) (OpenedIn dirs) := by
  rintro opened ⟨within, fact⟩
  refine ⟨fun content returned => ?_, fun fault failed => (nomatch failed)⟩
  cases returned
  exact ⟨rfl, List.forall_mem_append.mpr
    ⟨within, List.forall_mem_singleton.mpr ⟨dir, inside, name, listed, rfl⟩⟩, fact⟩

theorem readCgroupV2MemoryValue_triple {name : Bytes} (listed : name ∈ limitFiles) (A : Prop) :
    Triple (fun o => OpenedIn dirs o ∧ A) (readCgroupV2MemoryValue fs dir name)
      (fun value o => OpenedIn dirs o ∧ A ∧
        memoryValue dir name (trimmedFile fs (joinPath dir name)) = .ok value) (OpenedIn dirs) := by
  refine (readTrimmedFile_triple inside listed A).bind fun content => ?_
  refine (triple_lift_value fun _ held => held.2.1).mono (fun _ held => held) ?_
  rintro value opened ⟨computed, rfl, within, fact⟩
  exact ⟨within, fact, Eval.ofExcept_eq_ok computed⟩

/-- The memory files of one directory. -/
theorem memory_visit {before : List Bytes} {acc : Option Int64 × Option Int64} :
    Triple (fun o => OpenedIn dirs o ∧ Walked fs before acc)
      (do
        let maxVal ← readCgroupV2Memory fs dir
        let highVal ← readCgroupV2MemoryHigh fs dir
        return (lower acc.1 maxVal, lower acc.2 highVal))
      (fun acc' o => OpenedIn dirs o ∧ Walked fs (before ++ [dir]) acc') (OpenedIn dirs) := by
  refine (readCgroupV2MemoryValue_triple inside (by decide) _).bind fun maxVal => ?_
  refine Triple.bind ((readCgroupV2MemoryValue_triple inside (by decide) (Walked fs before acc ∧
    memoryValue dir cgroupV2MemoryMax (trimmedFile fs (joinPath dir cgroupV2MemoryMax)) = .ok maxVal)).mono
      (fun _ held => held) fun _ _ held => held) fun highVal => triple_pure ?_
  rintro opened ⟨within, ⟨walked, readMax⟩, readHigh⟩
  exact ⟨within, walked.step readMax readHigh⟩

theorem cpu_visit [Float64] [Float64Quotient] {acc : Option Float64.F} (A : Prop) :
    Triple (fun o => OpenedIn dirs o ∧ A)
      (do
        let qRatio ← readCgroupV2CPU fs dir
        match acc, qRatio with
        | acc, none => return acc
        | none, some q => return some q
        | some min, some q => return (if Float64.less q min then some q else some min))
      (fun _ o => OpenedIn dirs o ∧ A) (OpenedIn dirs) := by
  refine Triple.bind (R := fun _ o => OpenedIn dirs o ∧ A) ?_ fun qRatio => ?_
  · refine (readTrimmedFile_triple inside (by decide) A).bind fun content => ?_
    exact (triple_lift fun _ held => held.2.1).mono (fun _ held => held) fun _ _ held => held.2
  · split
    · exact triple_pure fun _ held => held
    · exact triple_pure fun _ held => held
    · exact triple_pure fun _ held => held

end Triples

/-! ## The reading as a whole -/

/-- Where the target can be resolved to. -/
theorem resolveTargetDirectory_ok {root relPath target : Bytes}
    (resolved : resolveTargetDirectory fs root relPath = .ok target) :
    target = targetDirectory root relPath ∧ relPath ≠ [] ∧
      (relPath ≠ [slash] → relPath ≠ lit "." → fs.stat (targetDirectory root relPath) = none) := by
  unfold resolveTargetDirectory at resolved
  unfold targetDirectory
  split at resolved
  · cases resolved
  · rename_i some
    split at resolved
    · rename_i mount
      cases resolved
      rw [if_pos mount]
      rw [Bool.or_eq_true, decide_eq_true_eq, decide_eq_true_eq] at mount
      exact ⟨rfl, some, fun other other' => absurd mount (by rintro (same | same); exacts [other same, other' same])⟩
    · rename_i below
      rw [if_neg below]
      dsimp only at resolved
      split_ifs at resolved
      split at resolved
      · cases resolved
      · rename_i present
        cases resolved
        exact ⟨rfl, some, fun _ _ => present⟩

/-- The target has a list of names below the mount. -/
theorem targetDirectory_below {r : List Bytes} (properR : ∀ c ∈ r, IsName c) (relPath : Bytes) :
    ∃ u, (∀ c ∈ u, IsName c) ∧ targetDirectory (pathOf r) relPath = pathOf (r ++ u) := by
  unfold targetDirectory
  split
  · exact ⟨[], List.forall_mem_nil _, by rw [List.append_nil]⟩
  · obtain ⟨u, properU, cleaned⟩ := cleanPath_rooted (p := slash :: relPath) rfl
    exact ⟨u, properU, by rw [cleaned, joinPath_pathOf properR properU]⟩

section Whole

variable {r u : List Bytes} (properR : ∀ c ∈ r, IsName c) (properU : ∀ c ∈ u, IsName c)

include properR properU

theorem traverseCgroupV2Memory_triple :
    Triple (OpenedIn (chain r u)) (traverseCgroupV2Memory fs (pathOf (r ++ u)) (pathOf r))
      (fun acc o => OpenedIn (chain r u) o ∧ Walked fs (chain r u) acc) (OpenedIn (chain r u)) := by
  rw [traverseCgroupV2Memory, walk_chain _ properR properU]
  have whole := triple_foldlM (I := fun before acc o => OpenedIn (chain r u) o ∧ Walked fs before acc) (chain r u)
    (fun dir mem before acc => memory_visit mem) [] (none, none)
  exact whole.mono (fun _ within => ⟨within, walked_nil⟩) fun _ _ held => held

variable [Float64] [Float64Quotient]

theorem traverseCgroupV2CPU_triple (A : Prop) :
    Triple (fun o => OpenedIn (chain r u) o ∧ A) (traverseCgroupV2CPU fs (pathOf (r ++ u)) (pathOf r))
      (fun _ o => OpenedIn (chain r u) o ∧ A) (OpenedIn (chain r u)) := by
  rw [traverseCgroupV2CPU, walk_chain _ properR properU]
  exact triple_foldlM (I := fun _ _ o => OpenedIn (chain r u) o ∧ A) (chain r u)
    (fun dir mem before acc => cpu_visit mem A) [] none

variable (fs) in
/-- **What a reading that succeeds has found.** -/
theorem readCgroupV2_triple {relPath : Bytes} (target : targetDirectory (pathOf r) relPath = pathOf (r ++ u)) :
    Triple (OpenedIn (chain r u)) (readCgroupV2 fs (pathOf r) relPath)
      (fun res o => OpenedIn (chain r u) o ∧
        (∃ dir, resolveTargetDirectory fs (pathOf r) relPath = .ok dir) ∧
        ∃ acc, Walked fs (chain r u) acc ∧ res.toLimits = memoryLimits acc.1 acc.2) (OpenedIn (chain r u)) := by
  refine triple_lift_bind (fun _ held => held) fun dir resolved => ?_
  have found := Eval.ofExcept_eq_ok resolved
  rw [(resolveTargetDirectory_ok found).1, target]
  refine (traverseCgroupV2Memory_triple properR properU).bind fun acc => ?_
  refine (traverseCgroupV2CPU_triple properR properU _).bind fun quota => ?_
  have done : ∀ res : Resources, res.toLimits = memoryLimits acc.1 acc.2 →
      Triple (fun o => OpenedIn (chain r u) o ∧ Walked fs (chain r u) acc) (pure res : Reading Resources)
        (fun res o => OpenedIn (chain r u) o ∧
          (∃ dir, resolveTargetDirectory fs (pathOf r) relPath = .ok dir) ∧
          ∃ acc, Walked fs (chain r u) acc ∧ res.toLimits = memoryLimits acc.1 acc.2) (OpenedIn (chain r u)) :=
    fun res same => triple_pure fun _ held => ⟨held.1, ⟨dir, found⟩, acc, held.2, same⟩
  split
  · exact done _ rfl
  · split
    · exact done _ rfl
    · exact done _ rfl

variable (fs) in
/-- The reading never traps: whatever stops it is an error of its own. -/
theorem readCgroupV2_sure {relPath : Bytes} (target : targetDirectory (pathOf r) relPath = pathOf (r ++ u)) :
    Sure (readCgroupV2 fs (pathOf r) relPath) fun _ => True := by
  have lifted : ∀ {α : Type} (x : Except Err α), Sure (Metered.lift (Eval.ofExcept x) : Reading α) fun _ => True :=
    fun x => sure_lift ⟨Eval.ofExcept_safe x, fun _ _ => trivial⟩
  have trimmed : ∀ path, Sure (readTrimmedFile fs path) fun _ => True := fun path =>
    (sure_charge fun _ => Eval.safe_ok _).bind fun _ _ => sure_pure trivial
  have memory : ∀ dir name, Sure (readCgroupV2MemoryValue fs dir name) fun _ => True := fun dir name =>
    (trimmed _).bind fun content _ => lifted _
  have memoryWalk : Sure (traverseCgroupV2Memory fs (pathOf (r ++ u)) (pathOf r)) fun _ => True := by
    rw [traverseCgroupV2Memory, walk_chain _ properR properU]
    exact sure_foldlM (I := fun _ _ => True) (fun _ acc dir _ => (memory dir _).bind fun _ _ =>
      (memory dir _).bind fun _ _ => sure_pure trivial) _ [] _ trivial
  have cpu : ∀ dir, Sure (readCgroupV2CPU fs dir) fun _ => True := fun dir =>
    (trimmed _).bind fun content _ => lifted _
  have cpuWalk : Sure (traverseCgroupV2CPU fs (pathOf (r ++ u)) (pathOf r)) fun _ => True := by
    rw [traverseCgroupV2CPU, walk_chain _ properR properU]
    refine sure_foldlM (I := fun _ _ => True) (fun _ acc dir _ => (cpu dir).bind fun q _ => ?_) _ [] _ trivial
    split
    · exact sure_pure trivial
    · exact sure_pure trivial
    · exact sure_pure trivial
  refine Sure.bind (sure_lift ⟨Eval.ofExcept_safe _, fun _ same => Eval.ofExcept_eq_ok same⟩) fun dir resolved => ?_
  rw [(resolveTargetDirectory_ok resolved).1, target]
  refine memoryWalk.bind fun acc _ => cpuWalk.bind fun quota _ => ?_
  split
  · exact sure_pure trivial
  · split
    · exact sure_pure trivial
    · exact sure_pure trivial

end Whole

/-- The numbers of the memory files on the chain. -/
def numbersOn (fs : FileSystem) (root target : Bytes) : Set Int :=
  {n | ∃ dir name, OnChain root target dir ∧ name ∈ memoryFiles ∧ HoldsNumber fs (joinPath dir name) n}

/-- The least values of a walk along the whole chain. -/
theorem Walked.ceiling {r u : List Bytes} (properR : ∀ c ∈ r, IsName c) (properU : ∀ c ∈ u, IsName c)
    {acc : Option Int64 × Option Int64} (walked : Walked fs (chain r u) acc) :
    ((memoryLimits acc.1 acc.2).effectiveMemoryLimit.2 = true ↔ (numbersOn fs (pathOf r) (pathOf (r ++ u))).Nonempty) ∧
      ((memoryLimits acc.1 acc.2).effectiveMemoryLimit.2 = true →
        IsLeast (numbersOn fs (pathOf r) (pathOf (r ++ u))) (memoryLimits acc.1 acc.2).effectiveMemoryLimit.1.toInt) := by
  have numbers : numbersOn fs (pathOf r) (pathOf (r ++ u)) =
      numbersIn fs cgroupV2MemoryMax (chain r u) ∪ numbersIn fs cgroupV2MemoryHigh (chain r u) := by
    ext n
    simp only [numbersOn, numbersIn, memoryFiles, Set.mem_ofPred_eq, Set.mem_union, ← mem_chain properR properU,
      List.mem_cons, List.not_mem_nil, or_false]
    constructor
    · rintro ⟨dir, name, mem, rfl | rfl, number⟩
      · exact .inl ⟨dir, mem, number⟩
      · exact .inr ⟨dir, mem, number⟩
    · rintro (⟨dir, mem, number⟩ | ⟨dir, mem, number⟩)
      · exact ⟨dir, _, mem, .inl rfl, number⟩
      · exact ⟨dir, _, mem, .inr rfl, number⟩
  have nonneg : ∀ {name : Bytes} {least : Option Int64}, Least least (numbersIn fs name (chain r u)) →
      ∀ v, least = some v → 0 ≤ v.toInt := by
    rintro name _ held v rfl
    obtain ⟨_, _, _, _, _, positive⟩ := held.1
    exact positive
  have least := lower_least walked.max walked.high
  rw [← numbers] at least
  rw [memoryLimits_value (nonneg walked.max) (nonneg walked.high)]
  cases both : lower acc.1 acc.2 with
  | none =>
    rw [both] at least
    rw [show numbersOn fs (pathOf r) (pathOf (r ++ u)) = ∅ from least]
    exact ⟨⟨fun finite => (nomatch finite), fun some => absurd some Set.not_nonempty_empty⟩,
      fun finite => (nomatch finite)⟩
  | some v =>
    rw [both] at least
    exact ⟨⟨fun _ => ⟨_, least.1⟩, fun _ => rfl⟩, fun _ => least⟩

/-- A file of a directory on the chain stays below the mount, and its path is clean. -/
theorem chain_file {r u : List Bytes} (properR : ∀ c ∈ r, IsName c) (properU : ∀ c ∈ u, IsName c) {dir name : Bytes}
    (inside : dir ∈ chain r u) (file : IsName name) :
    isSubpath (pathOf r) (joinPath dir name) = true ∧ cleanPath (joinPath dir name) = joinPath dir name := by
  obtain ⟨n, -, rfl⟩ := List.mem_map.mp inside
  have proper : ∀ c ∈ r ++ u.take n, IsName c := fun c mem =>
    (List.mem_append.mp mem).elim (properR c) fun mem => properU c (List.mem_of_mem_take mem)
  have all : ∀ c ∈ r ++ u.take n ++ [name], IsName c := fun c mem =>
    (List.mem_append.mp mem).elim (proper c) fun here => List.mem_singleton.mp here ▸ file
  rw [joinPath_name proper file, isSubpath_pathOf properR all, cleanPath_pathOf all, List.append_assoc]
  exact ⟨List.prefix_append _ _, rfl⟩

/-- The code returned an error. -/
def Failed {α : Type} (out : Eval Err α × List Bytes) : Prop := ∃ err, out.1 = .error (.error err)

/-- **The ceiling of a cgroup v2 hierarchy.** -/
theorem readCgroupV2_ceiling [Float64] [Float64Quotient] (fs : FileSystem) (root relPath : Bytes)
    (rooted : root.head? = some slash) (clean : cleanPath root = root) :
    (∀ p ∈ (readCgroupV2 fs root relPath []).2, isSubpath root p = true ∧
      ∃ dir name, OnChain root (targetDirectory root relPath) dir ∧ name ∈ limitFiles ∧ p = joinPath dir name) ∧
    (relPath = [] ∨
      (relPath ≠ [slash] ∧ relPath ≠ lit "." ∧ fs.stat (targetDirectory root relPath) ≠ none) ∨
      (∃ dir name, OnChain root (targetDirectory root relPath) dir ∧ name ∈ memoryFiles ∧
        Corrupt fs (joinPath dir name)) → Failed (readCgroupV2 fs root relPath [])) ∧
    ∀ limits, (readCgroupV2 fs root relPath []).1 = .ok limits →
      (limits.toLimits.effectiveMemoryLimit.2 = true ↔
        (numbersOn fs root (targetDirectory root relPath)).Nonempty) ∧
      (limits.toLimits.effectiveMemoryLimit.2 = true →
        IsLeast (numbersOn fs root (targetDirectory root relPath)) limits.toLimits.effectiveMemoryLimit.1.toInt) := by
  obtain ⟨r, properR, cleaned⟩ := cleanPath_rooted rooted
  obtain rfl : root = pathOf r := clean.symm.trans cleaned
  obtain ⟨u, properU, target⟩ := targetDirectory_below properR relPath
  have nothing : OpenedIn (chain r u) [] := List.forall_mem_nil _
  obtain ⟨success, failure⟩ := readCgroupV2_triple fs properR properU target [] nothing
  have safe := (readCgroupV2_sure fs properR properU target []).1
  rw [target]
  generalize readCgroupV2 fs (pathOf r) relPath [] = out at *
  refine ⟨fun p mem => ?_, fun reason => ?_, fun limits returned => ?_⟩
  · have within : OpenedIn (chain r u) out.2 := by
      cases returned : out.1 with
      | ok res => exact (success res returned).1
      | error fault => exact failure fault returned
    obtain ⟨dir, inside, name, listed, rfl⟩ := within p mem
    have names : ∀ name ∈ limitFiles, IsName name := by decide
    obtain ⟨below, tidy⟩ := chain_file properR properU inside (names name listed)
    rw [tidy]
    exact ⟨below, dir, name, (mem_chain properR properU).mp inside, listed, rfl⟩
  · cases returned : out.1 with
    | ok res =>
      obtain ⟨-, ⟨dir, resolved⟩, acc, walked, -⟩ := success res returned
      obtain ⟨-, some, present⟩ := resolveTargetDirectory_ok resolved
      rcases reason with empty | ⟨other, other', missing⟩ | ⟨dir, name, onChain, listed, corrupt⟩
      · exact absurd empty some
      · exact absurd (target ▸ present other other') missing
      · exact absurd corrupt (walked.sound dir ((mem_chain properR properU).mpr onChain) name listed)
    | error fault =>
      cases fault with
      | error err => exact ⟨err, returned⟩
      | trap t => exact absurd returned (safe t)
  · obtain ⟨-, -, acc, walked, same⟩ := success limits returned
    rw [same]
    exact walked.ceiling properR properU

/-! ## Examples -/

/-- Floating point that knows no quota. -/
local instance ceilingFloats : Float64 where
  F := Int
  ofInt n := n
  less a b := a < b
  equal a b := a = b
  finite _ := true
  defaultMemoryRatio := 1
  defaultMemoryConstrainedRatio := 1
  parse _ := none
  floorMul n _ := n
  floor q := q
  scaledHeadroom _ _ := 0
  round x := x
  format _ := []

local instance ceilingQuotient : Float64Quotient := ⟨fun quota _ => quota⟩

/-- A hierarchy in which only some memory files exist. -/
def someFiles (files : List (Bytes × Bytes)) : FileSystem where
  stat _ := none
  file path :=
    match files.lookup path with
    | some data => .ok (data, none)
    | none => .error (.sentinel .osErrNotExist)

/-- Below `/c`, a limit of zero on the mount holds for a group that has none. -/
theorem readCgroupV2_ceiling_mount :
    ∃ limits, (readCgroupV2 (someFiles [(lit "/c/a/memory.max", lit "max\n"), (lit "/c/memory.max", lit "0\n")])
      (lit "/c") (lit "/a") []).1 = .ok limits ∧ limits.toLimits.effectiveMemoryLimit.2 = true := by
  have returned : (readCgroupV2 (someFiles [(lit "/c/a/memory.max", lit "max\n"), (lit "/c/memory.max", lit "0\n")])
      (lit "/c") (lit "/a") []).1.toOption.isSome = true := by decide +kernel
  obtain ⟨limits, found⟩ := Option.isSome_iff_exists.mp returned
  have success := Eval.eq_ok_of_toOption found
  refine ⟨limits, success, ?_⟩
  have ceiling := readCgroupV2_ceiling (someFiles [(lit "/c/a/memory.max", lit "max\n"),
    (lit "/c/memory.max", lit "0\n")]) (lit "/c") (lit "/a") (by decide) (by decide)
  refine (ceiling.2.2 limits success).1.mpr ⟨0, lit "/c", cgroupV2MemoryMax, ⟨⟨1, by decide⟩, by decide⟩, by decide,
    lit "0", except_ok_of_toOption (by decide +kernel), by decide, le_rfl⟩

/-- Only the first line counts: this file is taken for no limit. -/
theorem readCgroupV2_further_lines :
    (someFiles [(lit "/c/memory.max", lit "max\nlow\n")]).file (lit "/c/memory.max") =
        .ok (lit "max\nlow\n", none) ∧
      trimSpace (lit "max\nlow\n") ≠ lit "max" ∧ parseInt (trimSpace (lit "max\nlow\n")) = none ∧
      ∃ limits, (readCgroupV2 (someFiles [(lit "/c/memory.max", lit "max\nlow\n")]) (lit "/c") (lit "/") []).1 =
        .ok limits := by
  have returned : (readCgroupV2 (someFiles [(lit "/c/memory.max", lit "max\nlow\n")]) (lit "/c") (lit "/")
      []).1.toOption.isSome = true := by decide +kernel
  obtain ⟨limits, found⟩ := Option.isSome_iff_exists.mp returned
  exact ⟨rfl, by decide +kernel, by decide +kernel, limits, Eval.eq_ok_of_toOption found⟩

end Microfat.Cgroup
