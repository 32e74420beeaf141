/-
# Microfat.Cgroup.Hierarchy — reading the limits of a cgroup v2 hierarchy

`readCgroupV2` resolves the directory of the process below the mount and walks from it to
the mount, reading `memory.max`, `memory.high` and `cpu.max` on the way.  The two walks are
one (`walk`), around what is done in a directory.

Files are an arbitrary `FileSystem`.  The code runs with the list of the files it opened
(`Reading`).  A walk is a fold over the directories it visits (`walk_visited`); below a clean
absolute mount these are the ones from the target up to the mount, each once (`visited_chain`).
-/
import Microfat.Cgroup.Tuning
import Microfat.Theory.Meter
import Microfat.Theory.Paths

namespace Microfat.Cgroup

open Theory

set_option autoImplicit false

/-! ## Files -/

structure FileSystem where
  /-- `os.Stat`: its error. -/
  stat : Bytes → Option Err
  /-- `os.Open`, and then the bytes of the file and the error that reading them ends with. -/
  file : Bytes → Except Err (Bytes × Option Err)

/-- Code that reads files, with the files opened so far. -/
abbrev Reading := Metered (List Bytes) Err

def newline : UInt8 := 10
def maxScanTokenSize : Nat := 64 * 1024

/-- The carriage return at the end of a line. -/
def dropCR (line : Bytes) : Bytes := trimSuffix line [13]

/-- The first `Scan` of a `bufio.Scanner` over lines, and the error of the caller when there
is no line at all. -/
def scanLine (data : Bytes) (readErr : Option Err) : Except Err Bytes :=
  let line := data.takeWhile (· ≠ newline)
  if maxScanTokenSize ≤ line.length then .error (.new "bufio.Scanner: token too long")
  else if data ≠ [] then .ok (dropCR line)
  else .error (readErr.getD (.new "empty file"))

section

variable (fs : FileSystem)

/-- What `readTrimmedFile` returns. -/
def trimmedFile (path : Bytes) : Except Err Bytes :=
  match fs.file (cleanPath path) with
  | .error err => .error err
  | .ok (data, readErr) => (scanLine data readErr).map trimSpace

def readTrimmedFile (path : Bytes) : Reading (Except Err Bytes) := do
  Metered.charge fun opened => .ok (opened ++ [cleanPath path])
  return trimmedFile fs path

/-! ## Limits of one directory -/

def cgroupV2MemoryMax : Bytes := lit "memory.max"
def cgroupV2MemoryHigh : Bytes := lit "memory.high"
def cgroupV2CPUMax : Bytes := lit "cpu.max"

def readingFailed (path : Bytes) (err : Err) : Err :=
  .wrap [.cause, .text ": reading ", .str path, .text ": ", .cause] [.sentinel .errCgroupLimitCorrupted, err]

/-- What a memory file means: no limit, or a number of bytes. -/
def memoryValue (dir filename : Bytes) : Except Err Bytes → Except Err (Option Int64)
  | .error err =>
    if Err.is err .osErrNotExist then .ok none else .error (readingFailed (joinPath dir filename) err)
  | .ok memBytes =>
    let invalid : Err := .about .errCgroupLimitCorrupted [.text "invalid ", .str filename, .text " value ",
      .quoted memBytes, .text " in ", .str (joinPath dir filename)]
    if memBytes = lit "max" then .ok none
    else if memBytes = [] then
      .error (.about .errCgroupLimitCorrupted [.text "empty ", .str filename, .text " in ", .str dir])
    else
      match parseInt memBytes with
      | none => .error invalid
      | some val => if val < 0 then .error invalid else .ok (some (Int64.ofInt val))

def readCgroupV2MemoryValue (dir filename : Bytes) : Reading (Option Int64) := do
  let content ← readTrimmedFile fs (joinPath dir filename)
  Metered.lift (Eval.ofExcept (memoryValue dir filename content))

def readCgroupV2Memory (dir : Bytes) : Reading (Option Int64) := readCgroupV2MemoryValue fs dir cgroupV2MemoryMax

def readCgroupV2MemoryHigh (dir : Bytes) : Reading (Option Int64) := readCgroupV2MemoryValue fs dir cgroupV2MemoryHigh

end

/-- The quotient of two `float64` values. -/
class Float64Quotient [Float64] where
  div : Float64.F → Float64.F → Float64.F

section

variable [Float64] [Float64Quotient] (fs : FileSystem)

/-- `x <= 0`, which does not hold of a value that is no number. -/
def notPositive (x : Float64.F) : Bool := Float64.less x (Float64.ofInt 0) || Float64.equal x (Float64.ofInt 0)

/-- What `cpu.max` means: no quota, or a number of processors. -/
def cpuValue (dir : Bytes) : Except Err Bytes → Except Err (Option Float64.F)
  | .error err =>
    if Err.is err .osErrNotExist then .ok none else .error (readingFailed (joinPath dir cgroupV2CPUMax) err)
  | .ok cpuContent =>
    let cpuPath := joinPath dir cgroupV2CPUMax
    if cpuContent = [] then .error (.about .errCgroupLimitCorrupted [.text "empty cpu.max in ", .str dir])
    else
      match fields cpuContent with
      | [first, second] =>
        if first = lit "max" then
          if (Float64.parse second).all notPositive then
            .error (.about .errCgroupLimitCorrupted [.text "invalid cpu.max period ", .quoted second,
              .text " in ", .str cpuPath])
          else .ok none
        else
          let invalid : Err := .about .errCgroupLimitCorrupted [.text "invalid cpu.max values ",
            .quoted cpuContent, .text " in ", .str cpuPath]
          match Float64.parse first, Float64.parse second with
          | some quota, some period =>
            if notPositive period || notPositive quota then .error invalid
            else .ok (some (Float64Quotient.div quota period))
          | _, _ => .error invalid
      | _ =>
        .error (.about .errCgroupLimitCorrupted [.text "invalid cpu.max format ", .quoted cpuContent,
          .text " in ", .str cpuPath])

def readCgroupV2CPU (dir : Bytes) : Reading (Option Float64.F) := do
  let content ← readTrimmedFile fs (joinPath dir cgroupV2CPUMax)
  Metered.lift (Eval.ofExcept (cpuValue dir content))

end

/-! ## The walk to the mount -/

/-- `isSubpath`. -/
def isSubpath (root path : Bytes) : Bool :=
  root = path || root = [slash] || (root ++ [slash]).isPrefixOf path

/-- The loop of both traversals, around what they do in a directory. -/
def walk {α : Type} (visit : α → Bytes → Reading α) (root curr : Bytes) (acc : α) : Reading α := do
  let acc ← visit acc curr
  if curr = root then return acc
  else if _top : dirPath curr = curr then return acc
  else if !isSubpath root (dirPath curr) then return acc
  else walk visit root (dirPath curr) acc
termination_by weigh curr
decreasing_by exact dirPath_weigh _top

theorem isSubpath_pathOf {r d : List Bytes} (properR : ∀ c ∈ r, IsName c) (properD : ∀ c ∈ d, IsName c) :
    isSubpath (pathOf r) (pathOf d) = true ↔ r <+: d := by
  rw [isSubpath, Bool.or_eq_true, Bool.or_eq_true, decide_eq_true_eq, decide_eq_true_eq, List.isPrefixOf_iff_prefix]
  constructor
  · rintro ((same | root) | ⟨rest, whole⟩)
    · rw [pathOf_inj properR properD same]
    · rw [pathOf_inj properR (List.forall_mem_nil _) root]
      exact List.nil_prefix
    · have names := components_pathOf properD
      rw [← whole, List.append_assoc, List.singleton_append, components_concat, components_pathOf properR] at names
      exact ⟨_, names⟩
  · rintro ⟨rest, rfl⟩
    by_cases none : rest = []
    · rw [none, List.append_nil]
      exact .inl (.inl rfl)
    · by_cases root : r = []
      · rw [root]
        exact .inl (.inr rfl)
      · obtain ⟨c, more, rfl⟩ := List.exists_cons_of_ne_nil none
        right
        rw [pathOf_of_ne root, pathOf_of_ne (by simp), List.flatMap_append, List.flatMap_cons,
          List.prefix_append_right_inj, List.cons_append]
        exact ⟨_, rfl⟩

/-- The directories from `r ++ u` up to `r`. -/
def chain (r u : List Bytes) : List Bytes :=
  (List.range (u.length + 1)).reverse.map fun n => pathOf (r ++ u.take n)

theorem chain_append (r u : List Bytes) (c : Bytes) : chain r (u ++ [c]) = pathOf (r ++ (u ++ [c])) :: chain r u := by
  rw [chain, List.length_append, List.length_singleton, List.range_succ, List.reverse_append, List.reverse_singleton,
    List.singleton_append, List.map_cons, List.take_of_length_le (by simp), chain]
  congr 1
  refine List.map_congr_left fun n mem => ?_
  rw [List.mem_reverse, List.mem_range] at mem
  rw [List.take_append_of_le_length (by omega)]

/-- The directories a walk visits, in order. -/
def visited (root curr : Bytes) : List Bytes :=
  curr ::
    if curr = root then []
    else if _top : dirPath curr = curr then []
    else if !isSubpath root (dirPath curr) then []
    else visited root (dirPath curr)
termination_by weigh curr
decreasing_by exact dirPath_weigh _top

/-- A walk is a fold over the directories it visits. -/
theorem walk_visited {α : Type} (visit : α → Bytes → Reading α) (root curr : Bytes) (acc : α) :
    walk visit root curr acc = (visited root curr).foldlM visit acc := by
  fun_induction visited root curr generalizing acc with
  | case1 curr ih =>
    rw [walk, List.foldlM_cons]
    refine bind_congr fun acc => ?_
    by_cases last : curr = root
    · rw [if_pos last, if_pos last, List.foldlM_nil]
    by_cases top : dirPath curr = curr
    · rw [if_neg last, if_neg last, dif_pos top, dif_pos top, List.foldlM_nil]
    rw [if_neg last, if_neg last, dif_neg top, dif_neg top]
    split
    · rw [List.foldlM_nil]
    · exact ih top acc

/-- **Below a clean mount, the visited directories are those from the target up to the
mount.**  Induction over the names below the mount, the last one first. -/
theorem visited_chain {r u : List Bytes} (properR : ∀ c ∈ r, IsName c) (properU : ∀ c ∈ u, IsName c) :
    visited (pathOf r) (pathOf (r ++ u)) = chain r u := by
  induction u using List.reverseRecOn with
  | nil =>
    rw [List.append_nil, visited, if_pos rfl]
    simp [chain]
  | append_singleton u c ih =>
    have name : IsName c := properU c (by simp)
    have properU' : ∀ d ∈ u, IsName d := fun d mem => properU d (List.mem_append_left _ mem)
    have proper : ∀ d ∈ r ++ u, IsName d := fun d mem => (List.mem_append.mp mem).elim (properR d) (properU' d)
    have all : ∀ d ∈ r ++ (u ++ [c]), IsName d := fun d mem => (List.mem_append.mp mem).elim (properR d) (properU d)
    have parent : dirPath (pathOf (r ++ (u ++ [c]))) = pathOf (r ++ u) := by
      rw [← List.append_assoc]
      exact dirPath_pathOf proper name
    have below : pathOf (r ++ (u ++ [c])) ≠ pathOf r := fun same => by
      have := congrArg List.length (pathOf_inj all properR same)
      simp at this
    have moved : dirPath (pathOf (r ++ (u ++ [c]))) ≠ pathOf (r ++ (u ++ [c])) := fun same => by
      rw [parent] at same
      have := congrArg List.length (pathOf_inj proper all same)
      simp at this
    have inside : isSubpath (pathOf r) (pathOf (r ++ u)) = true :=
      (isSubpath_pathOf properR proper).mpr (List.prefix_append _ _)
    rw [visited, chain_append, if_neg below, dif_neg moved, parent, inside, ← ih properU']
    rfl

/-- The walk visits the directories from the target up to the mount. -/
theorem walk_chain {α : Type} (visit : α → Bytes → Reading α) {r u : List Bytes} (properR : ∀ c ∈ r, IsName c)
    (properU : ∀ c ∈ u, IsName c) (acc : α) :
    walk visit (pathOf r) (pathOf (r ++ u)) acc = (chain r u).foldlM visit acc := by
  rw [walk_visited, visited_chain properR properU]

/-- `if ok && (!has || val < min)`: the smaller of the value so far and the next. -/
def lower (least next : Option Int64) : Option Int64 :=
  match least, next with
  | least, none => least
  | none, some val => some val
  | some min, some val => if val.toInt < min.toInt then some val else some min

section

variable (fs : FileSystem)

/-- The least `memory.max` and the least `memory.high`. -/
def traverseCgroupV2Memory (targetDir root : Bytes) : Reading (Option Int64 × Option Int64) :=
  walk (fun acc curr => do
    let maxVal ← readCgroupV2Memory fs curr
    let highVal ← readCgroupV2MemoryHigh fs curr
    return (lower acc.1 maxVal, lower acc.2 highVal)) root targetDir (none, none)

variable [Float64] [Float64Quotient]

def traverseCgroupV2CPU (targetDir root : Bytes) : Reading (Option Float64.F) :=
  walk (fun acc curr => do
    let qRatio ← readCgroupV2CPU fs curr
    match acc, qRatio with
    | acc, none => return acc
    | none, some q => return some q
    | some min, some q => return (if Float64.less q min then some q else some min)) root targetDir none

/-! ## The limits of the process -/

/-- The directory a path of the process means below the mount. -/
def targetDirectory (baseDir relPath : Bytes) : Bytes :=
  if relPath = [slash] || relPath = lit "." then baseDir
  else joinPath baseDir (cleanPath (slash :: relPath))

def resolveTargetDirectory (baseDir relPath : Bytes) : Except Err Bytes :=
  if relPath = [] then
    .error (.about .errCgroupHierarchyNotFound [.text "relative path is empty or unresolved"])
  else if relPath = [slash] || relPath = lit "." then .ok baseDir
  else
    let candidate := joinPath baseDir (cleanPath (slash :: relPath))
    if !isSubpath baseDir candidate then
      .error (.about .errCgroupHierarchyNotFound [.text "relative path ", .quoted relPath, .text " escapes base ",
        .quoted baseDir])
    else
      match fs.stat candidate with
      | some err => .error (.wrap [.cause, .text ": target directory ", .quoted candidate, .text " not found: ", .cause]
          [.sentinel .errCgroupHierarchyNotFound, err])
      | none => .ok candidate

def versionV2 : Int := 2

/-- The memory part of the limits; the effective ceiling is stored beside the two it comes
from. -/
def memoryLimits (minMem minHigh : Option Int64) : Limits :=
  let limits : Limits := {
    cgroupVersion := versionV2
    memoryLimitBytes := minMem.getD 0
    memoryHighBytes := minHigh.getD 0
    effectiveMemoryLimitBytes := 0
    memoryLimitFinite := minMem.isSome
    memoryHighFinite := minHigh.isSome }
  { limits with effectiveMemoryLimitBytes := limits.effectiveMemoryLimit.1 }

def readCgroupV2 (root relPath : Bytes) : Reading Resources := do
  let targetDir ← Metered.lift (Eval.ofExcept (resolveTargetDirectory fs root relPath))
  let (minMem, minHigh) ← traverseCgroupV2Memory fs targetDir root
  let limits := memoryLimits minMem minHigh
  let minQuota ← traverseCgroupV2CPU fs targetDir root
  match minQuota with
  | none => return { limits with retainedExecutableBytes := 0, cpuQuota := Float64.ofInt 0, cpus := 0 }
  | some quota =>
    if Float64.less (Float64.ofInt 0) quota then
      return { limits with
        retainedExecutableBytes := 0
        cpuQuota := quota
        cpus := (calculateGOMAXPROCS quota).getD 0 }
    else return { limits with retainedExecutableBytes := 0, cpuQuota := Float64.ofInt 0, cpus := 0 }

end

end Microfat.Cgroup
