/-
# Microfat.Bench.CpuQuota — the tightest processor quota above a cgroup

The benchmark environment reports the quota and the period of the directory with the
smallest ratio, between the cgroup of the process and the mount.  Ratios are compared by
cross multiplication into two words, so nothing is rounded and nothing overflows.  A period
is also remembered from directories without a quota; it must not be paired with the quota
of another directory.

* `tighterCPUQuota_iff`: the comparison is the order of the exact rationals;
* `Minimum`: what the scan knows of the directories it has seen, kept by every directory;
* `traverseCPU_minimum`: the result for both versions of the hierarchy.
-/
import Microfat.Cgroup.Hierarchy

namespace Microfat.Bench

open Theory Cgroup Metered

set_option autoImplicit false

/-! ## The source -/

def cgroupV2CPUMaxFile : Bytes := lit "cpu.max"
def cgroupV1CPUQuotaFile : Bytes := lit "cpu.cfs_quota_us"
def cgroupV1CPUPeriodFile : Bytes := lit "cpu.cfs_period_us"
def cgroupMaxKeyword : Bytes := lit "max"
def cgroupUnlimited : Bytes := lit "-1"

/-- `bits.Mul64`: a product in two words, the high one first. -/
def mul64 (x y : UInt64) : UInt64 × UInt64 :=
  (UInt64.ofNat (x.toNat * y.toNat / 2 ^ 64), UInt64.ofNat (x.toNat * y.toNat % 2 ^ 64))

def tighterCPUQuota (quota period previousQuota previousPeriod : Int64) : Bool :=
  let (hi, lo) := mul64 quota.toUInt64 previousPeriod.toUInt64
  let (previousHi, previousLo) := mul64 previousQuota.toUInt64 period.toUInt64
  hi < previousHi || hi = previousHi && lo < previousLo

/-- The variables of both traversals; a period that is not set is a nil pointer. -/
structure CPUScan where
  minQuota : Int64
  foundPeriod : Option Int64
  hasQuota : Bool

namespace CPUScan

def start : CPUScan := ⟨0, none, false⟩

/-- `if foundPeriod == nil { foundPeriod = &period }`. -/
def meet (s : CPUScan) (period : Int64) : CPUScan := { s with foundPeriod := some (s.foundPeriod.getD period) }

/-- Take the pair over if it is the first or tighter than the one so far. -/
def offer (s : CPUScan) (quota period : Int64) : Eval Err CPUScan :=
  if !s.hasQuota then .ok ⟨quota, some period, true⟩
  else
    match s.foundPeriod with
    -- there is nothing behind the pointer
    | none => .error (.trap .bounds)
    | some previous => .ok (if tighterCPUQuota quota period s.minQuota previous then ⟨quota, some period, true⟩ else s)

end CPUScan

/-- The `*strconv.NumError` of `ParseInt`. -/
def numError (s : Bytes) : Err :=
  let digits := if s.head? = some 45 || s.head? = some 43 then s.tail else s
  .errorf [.text "strconv.ParseInt: parsing ", .quoted s,
    .text (if (parseDigits digits).isSome then ": value out of range" else ": invalid syntax")] [] []

/-- A message that ends in `%w` of the error of `ParseInt`, which may be nil. -/
def wrapNumError (message : List Part) (s : Bytes) : Err :=
  match parseInt s with
  | none => .wrap (message ++ [.cause]) [numError s]
  | some _ => .errorf (message ++ [.text "%!w(<nil>)"]) [] []

/-- A number that has to be positive. -/
def parsePositive (s : Bytes) (err : Err) : Except Err Int64 :=
  match parseInt s with
  | none => .error err
  | some n => if n ≤ 0 then .error err else .ok (Int64.ofInt n)

def scanCPUMax (s : CPUScan) (filePath : Bytes) : Except Err Bytes → Eval Err CPUScan
  | .error err => if Err.is err .osErrNotExist then .ok s else Eval.fail err
  | .ok valStr =>
    match fields valStr with
    | [qStr, pStr] => do
        let period ← Eval.ofExcept (parsePositive pStr
          (wrapNumError [.text "invalid cpu.max period ", .quoted pStr, .text " in ", .str filePath, .text ": "] pStr))
        if qStr ≠ cgroupMaxKeyword && qStr ≠ [] then
          let parsedQuota ← Eval.ofExcept (parsePositive qStr
            (wrapNumError [.text "corrupted cpu.max quota ", .quoted qStr, .text ": "] qStr))
          (s.meet period).offer parsedQuota period
        else return s.meet period
    | _ => Eval.fail (.errorf [.text "invalid cpu.max format ", .quoted valStr, .text " in ", .str filePath] [] [])

def scanPeriod (periodPath : Bytes) : Except Err Bytes → Except Err (Option Int64)
  | .error err => if Err.is err .osErrNotExist then .ok none else .error err
  | .ok pStr => (parsePositive pStr
      (.errorf [.text "invalid cpu.cfs_period_us ", .quoted pStr, .text " in ", .str periodPath] [] [])).map some

def scanQuota (s : CPUScan) (curr : Bytes) (currPeriod : Option Int64) : Except Err Bytes → Eval Err CPUScan
  | .error err => if Err.is err .osErrNotExist then .ok s else Eval.fail err
  | .ok qStr =>
    if qStr ≠ cgroupUnlimited && qStr ≠ [] then do
      let parsedQuota ← Eval.ofExcept (parsePositive qStr
        (wrapNumError [.text "corrupted cpu.cfs_quota_us ", .quoted qStr, .text ": "] qStr))
      match currPeriod with
      | none => Eval.fail (.errorf [.text "finite cpu quota in ", .str curr, .text " has no period"] [] [])
      | some period => s.offer parsedQuota period
    else return s

section

variable (fs : FileSystem)

def visitCPUMax (s : CPUScan) (curr : Bytes) : Reading CPUScan := do
  let content ← readTrimmedFile fs (joinPath curr cgroupV2CPUMaxFile)
  Metered.lift (scanCPUMax s (joinPath curr cgroupV2CPUMaxFile) content)

def traverseCgroupV2CPUMax (targetDir root : Bytes) : Reading CPUScan :=
  walk (visitCPUMax fs) root targetDir .start

def visitV1CPU (s : CPUScan) (curr : Bytes) : Reading CPUScan := do
  let pContent ← readTrimmedFile fs (joinPath curr cgroupV1CPUPeriodFile)
  let currPeriod ← Metered.lift (Eval.ofExcept (scanPeriod (joinPath curr cgroupV1CPUPeriodFile) pContent))
  let qContent ← readTrimmedFile fs (joinPath curr cgroupV1CPUQuotaFile)
  Metered.lift (scanQuota ((currPeriod.map s.meet).getD s) curr currPeriod qContent)

def traverseCgroupV1CPU (base target : Bytes) : Reading CPUScan := walk (visitV1CPU fs) base target .start

end

/-! ## The comparison -/

theorem toNat_toUInt64 {a : Int64} (nonneg : 0 ≤ a.toInt) : (a.toUInt64.toNat : Int) = a.toInt := by
  have cond := BitVec.toInt_eq_toNat_cond a.toBitVec
  have bound := a.toBitVec.isLt
  have same : a.toInt = a.toBitVec.toInt := rfl
  show ((a.toBitVec.toNat : Nat) : Int) = a.toInt
  split at cond <;> omega

/-- Two words, the high one first, are in the order of the number they make up. -/
theorem mul64_lt (x y x' y' : UInt64) :
    ((mul64 x y).1 < (mul64 x' y').1 ∨ (mul64 x y).1 = (mul64 x' y').1 ∧ (mul64 x y).2 < (mul64 x' y').2) ↔
      x.toNat * y.toNat < x'.toNat * y'.toNat := by
  have small : ∀ a b : UInt64, a.toNat * b.toNat / 2 ^ 64 < 2 ^ 64 := by
    intro a b
    apply Nat.div_lt_of_lt_mul
    exact Nat.mul_lt_mul'' a.toNat_lt b.toNat_lt
  have rest : ∀ n : Nat, n % 2 ^ 64 < 2 ^ 64 := fun n => Nat.mod_lt n (by decide)
  simp only [mul64, UInt64.lt_iff_toNat_lt, ← UInt64.toNat_inj, UInt64.toNat_ofNat', Nat.mod_eq_of_lt (small _ _),
    Nat.mod_mod]
  have first := Nat.div_add_mod (x.toNat * y.toNat) (2 ^ 64)
  have second := Nat.div_add_mod (x'.toNat * y'.toNat) (2 ^ 64)
  have := rest (x.toNat * y.toNat)
  have := rest (x'.toNat * y'.toNat)
  omega

/-- **The comparison is exact.** -/
theorem tighterCPUQuota_iff {quota period previousQuota previousPeriod : Int64} (positive : 0 < quota.toInt)
    (positive' : 0 < period.toInt) (before : 0 < previousQuota.toInt) (before' : 0 < previousPeriod.toInt) :
    tighterCPUQuota quota period previousQuota previousPeriod = true ↔
      (quota.toInt : ℚ) / period.toInt < (previousQuota.toInt : ℚ) / previousPeriod.toInt := by
  have words : tighterCPUQuota quota period previousQuota previousPeriod = true ↔
      quota.toUInt64.toNat * previousPeriod.toUInt64.toNat < previousQuota.toUInt64.toNat * period.toUInt64.toNat := by
    rw [← mul64_lt]
    simp [tighterCPUQuota]
  have whole : quota.toUInt64.toNat * previousPeriod.toUInt64.toNat <
      previousQuota.toUInt64.toNat * period.toUInt64.toNat ↔
        quota.toInt * previousPeriod.toInt < previousQuota.toInt * period.toInt := by
    rw [← toNat_toUInt64 positive.le, ← toNat_toUInt64 positive'.le, ← toNat_toUInt64 before.le,
      ← toNat_toUInt64 before'.le]
    exact_mod_cast Iff.rfl
  rw [words, whole, div_lt_div_iff₀ (by exact_mod_cast positive') (by exact_mod_cast before')]
  exact_mod_cast Iff.rfl

theorem parsePositive_ok {s : Bytes} {err : Err} {n : Int64} (parsed : parsePositive s err = .ok n) :
    parseInt s = some n.toInt ∧ 0 < n.toInt := by
  rw [parsePositive] at parsed
  split at parsed
  · cases parsed
  · rename_i m number
    split_ifs at parsed with positive
    cases parsed
    have fits : InInt64 m := ⟨by omega, ((parseInt_iff (not_le.mp positive)).mp number).1⟩
    rw [toInt_ofInt64 fits]
    exact ⟨number, not_le.mp positive⟩

/-! ## The minimum so far -/

/-- The quotas of the directories: which are limited, and with which quota and period. -/
structure Quotas where
  finite : Bytes → Prop
  pair : Bytes → Int64 → Int64 → Prop
  positive : ∀ {dir quota period}, pair dir quota period → 0 < quota.toInt ∧ 0 < period.toInt
  limited : ∀ {dir quota period}, pair dir quota period → finite dir
  unique : ∀ {dir quota period quota' period'}, pair dir quota period → pair dir quota' period' →
    quota' = quota ∧ period' = period

/-- The ratio of a quota to a period. -/
def ratio (quota period : Int64) : ℚ := (quota.toInt : ℚ) / period.toInt

/-- What the scan knows: whether a quota was found, and if so that the pair it holds is the
pair of one directory, and no directory has a smaller ratio. -/
structure Minimum (Q : Quotas) (dirs : List Bytes) (s : CPUScan) : Prop where
  found : s.hasQuota = true ↔ ∃ dir ∈ dirs, Q.finite dir
  least : s.hasQuota = true → ∃ period, s.foundPeriod = some period ∧ (∃ dir ∈ dirs, Q.pair dir s.minQuota period) ∧
    ∀ dir ∈ dirs, ∀ quota' period', Q.pair dir quota' period' → ratio s.minQuota period ≤ ratio quota' period'

section

variable {Q : Quotas} {dirs : List Bytes} {dir : Bytes} {s : CPUScan}

theorem Minimum.start : Minimum Q [] .start :=
  ⟨by simp [CPUScan.start], fun found => by cases found⟩

/-- A period without a quota changes nothing that is paired. -/
theorem Minimum.meet (h : Minimum Q dirs s) (period : Int64) : Minimum Q dirs (s.meet period) := by
  refine ⟨h.found, fun found => ?_⟩
  obtain ⟨held, same, rest⟩ := h.least found
  refine ⟨held, ?_, rest⟩
  rw [CPUScan.meet, same, Option.getD_some]

theorem exists_append {p : Bytes → Prop} : (∃ d ∈ dirs ++ [dir], p d) ↔ (∃ d ∈ dirs, p d) ∨ p dir := by
  simp [or_and_right, exists_or]

theorem forall_append {p : Bytes → Prop} : (∀ d ∈ dirs ++ [dir], p d) ↔ (∀ d ∈ dirs, p d) ∧ p dir := by
  simp [or_imp, forall_and]

/-- A directory without a quota. -/
theorem Minimum.pass (h : Minimum Q dirs s) (unlimited : ¬ Q.finite dir) : Minimum Q (dirs ++ [dir]) s := by
  constructor
  · rw [h.found, exists_append, or_iff_left unlimited]
  · intro found
    obtain ⟨period, same, attained, least⟩ := h.least found
    refine ⟨period, same, exists_append.mpr (.inl attained), forall_append.mpr ⟨least, ?_⟩⟩
    intro quota' period' pair
    exact absurd (Q.limited pair) unlimited

/-- **A directory with a quota.**  The new pair is compared with the pair so far; both
were positive when they were parsed, so the comparison is exact. -/
theorem Minimum.offer (h : Minimum Q dirs s) {quota period : Int64} (pair : Q.pair dir quota period) :
    Eval.Yields (s.offer quota period) (Minimum Q (dirs ++ [dir])) := by
  have here : ∃ d ∈ dirs ++ [dir], Q.finite d := exists_append.mpr (.inr (Q.limited pair))
  have own : ∀ quota' period', Q.pair dir quota' period' → ratio quota period ≤ ratio quota' period' := by
    intro quota' period' other
    obtain ⟨rfl, rfl⟩ := Q.unique pair other
    exact le_refl _
  rw [CPUScan.offer]
  cases none : s.hasQuota with
  | false =>
    have unlimited : ¬ ∃ d ∈ dirs, Q.finite d := by
      rw [← h.found, none]
      exact Bool.false_ne_true
    refine Eval.yields_ok ⟨iff_of_true rfl here, fun _ => ⟨period, rfl, exists_append.mpr (.inr pair), ?_⟩⟩
    refine forall_append.mpr ⟨fun d mem quota' period' other => ?_, own⟩
    exact absurd ⟨d, mem, Q.limited other⟩ unlimited
  | true =>
    obtain ⟨previous, same, ⟨d, mem, held⟩, least⟩ := h.least none
    obtain ⟨positive, positive'⟩ := Q.positive pair
    obtain ⟨before, before'⟩ := Q.positive held
    have compared := tighterCPUQuota_iff positive positive' before before'
    simp only [same, Bool.not_true, Bool.false_eq_true, if_false]
    apply Eval.yields_ok
    split
    · rename_i tighter
      have smaller : ratio quota period ≤ ratio s.minQuota previous := (compared.mp tighter).le
      refine ⟨iff_of_true rfl here, fun _ => ⟨period, rfl, exists_append.mpr (.inr pair), ?_⟩⟩
      exact forall_append.mpr ⟨fun d mem quota' period' other => smaller.trans (least d mem _ _ other), own⟩
    · rename_i looser
      have larger : ratio s.minQuota previous ≤ ratio quota period := not_lt.mp (mt compared.mpr looser)
      refine ⟨iff_of_true none here, fun _ => ⟨previous, same, exists_append.mpr (.inl ⟨d, mem, held⟩), ?_⟩⟩
      exact forall_append.mpr ⟨least, fun quota' period' other => larger.trans (own _ _ other)⟩

end

/-! ## What the directories hold -/

/-- The quotas of a unified hierarchy: two fields, the first of them not `max`. -/
def quotasV2 (fs : FileSystem) : Quotas where
  finite dir := ∃ valStr qStr pStr, trimmedFile fs (joinPath dir cgroupV2CPUMaxFile) = .ok valStr ∧
    fields valStr = [qStr, pStr] ∧ qStr ≠ cgroupMaxKeyword ∧ qStr ≠ []
  pair dir quota period := ∃ valStr qStr pStr, (trimmedFile fs (joinPath dir cgroupV2CPUMaxFile) = .ok valStr ∧
    fields valStr = [qStr, pStr] ∧ qStr ≠ cgroupMaxKeyword ∧ qStr ≠ []) ∧
      (parseInt qStr = some quota.toInt ∧ 0 < quota.toInt) ∧ parseInt pStr = some period.toInt ∧ 0 < period.toInt
  positive := by
    rintro dir quota period ⟨_, _, _, -, q, p⟩
    exact ⟨q.2, p.2⟩
  limited := by
    rintro dir quota period ⟨valStr, qStr, pStr, there, -⟩
    exact ⟨valStr, qStr, pStr, there⟩
  unique := by
    rintro dir quota period quota' period' ⟨_, _, _, ⟨file, split, -⟩, q, p⟩ ⟨_, _, _, ⟨file', split', -⟩, q', p'⟩
    cases file.symm.trans file'
    cases split.symm.trans split'
    exact ⟨Int64.toInt_inj.mp (Option.some.inj (q'.1.symm.trans q.1)),
      Int64.toInt_inj.mp (Option.some.inj (p'.1.symm.trans p.1))⟩

/-- The quotas of a hierarchy of version one: a quota that is not `-1`, and the period beside
it. -/
def quotasV1 (fs : FileSystem) : Quotas where
  finite dir := ∃ qStr, trimmedFile fs (joinPath dir cgroupV1CPUQuotaFile) = .ok qStr ∧ qStr ≠ cgroupUnlimited ∧ qStr ≠ []
  pair dir quota period := ∃ qStr pStr,
    (trimmedFile fs (joinPath dir cgroupV1CPUQuotaFile) = .ok qStr ∧ qStr ≠ cgroupUnlimited ∧ qStr ≠ []) ∧
      trimmedFile fs (joinPath dir cgroupV1CPUPeriodFile) = .ok pStr ∧
      (parseInt qStr = some quota.toInt ∧ 0 < quota.toInt) ∧ parseInt pStr = some period.toInt ∧ 0 < period.toInt
  positive := by
    rintro dir quota period ⟨_, _, -, -, q, p⟩
    exact ⟨q.2, p.2⟩
  limited := by
    rintro dir quota period ⟨qStr, _, there, -⟩
    exact ⟨qStr, there⟩
  unique := by
    rintro dir quota period quota' period' ⟨_, _, ⟨file, -⟩, other, q, p⟩ ⟨_, _, ⟨file', -⟩, other', q', p'⟩
    cases file.symm.trans file'
    cases other.symm.trans other'
    exact ⟨Int64.toInt_inj.mp (Option.some.inj (q'.1.symm.trans q.1)),
      Int64.toInt_inj.mp (Option.some.inj (p'.1.symm.trans p.1))⟩

section

variable {fs : FileSystem} {dirs : List Bytes} {dir : Bytes} {s : CPUScan}

theorem readTrimmedFile_sure (path : Bytes) :
    Sure (readTrimmedFile fs path) fun content => content = trimmedFile fs path :=
  (sure_charge fun _ => Eval.safe_ok _).bind fun _ _ => sure_pure rfl

theorem yields_parsePositive (text : Bytes) (err : Err) :
    Eval.Yields (Eval.ofExcept (parsePositive text err)) fun n => parseInt text = some n.toInt ∧ 0 < n.toInt :=
  ⟨Eval.ofExcept_safe _, fun _ same => parsePositive_ok (Eval.ofExcept_eq_ok same)⟩

/-- One directory of a unified hierarchy. -/
theorem visitCPUMax_sure (h : Minimum (quotasV2 fs) dirs s) :
    Sure (visitCPUMax fs s dir) (Minimum (quotasV2 fs) (dirs ++ [dir])) := by
  refine (readTrimmedFile_sure _).bind ?_
  rintro _ rfl
  apply sure_lift
  cases content : trimmedFile fs (joinPath dir cgroupV2CPUMaxFile) with
  | error err =>
    rw [scanCPUMax]
    refine Eval.yields_ite (fun _ => Eval.yields_ok (h.pass ?_)) fun _ => Eval.yields_fail _ _
    rintro ⟨valStr, _, _, there, -⟩
    cases content.symm.trans there
  | ok valStr =>
    rw [scanCPUMax]
    split
    · rename_i qStr pStr split
      refine (yields_parsePositive _ _).bind fun period p => Eval.yields_ite (fun limited => ?_) fun unlimited => ?_
      · simp only [Bool.and_eq_true, decide_eq_true_eq] at limited
        refine (yields_parsePositive _ _).bind fun quota q => ?_
        exact (h.meet period).offer ⟨valStr, qStr, pStr, ⟨content, split, limited⟩, q, p⟩
      · refine Eval.yields_ok ((h.meet period).pass ?_)
        rintro ⟨_, _, _, there, split', limited⟩
        cases content.symm.trans there
        cases split.symm.trans split'
        exact unlimited (by simpa using limited)
    · exact Eval.yields_fail _ _

/-- One directory of version one. -/
theorem visitV1CPU_sure (h : Minimum (quotasV1 fs) dirs s) :
    Sure (visitV1CPU fs s dir) (Minimum (quotasV1 fs) (dirs ++ [dir])) := by
  refine (readTrimmedFile_sure _).bind ?_
  rintro _ rfl
  have period : Eval.Yields (Eval.ofExcept (scanPeriod (joinPath dir cgroupV1CPUPeriodFile)
      (trimmedFile fs (joinPath dir cgroupV1CPUPeriodFile)))) fun currPeriod => ∀ period, currPeriod = some period →
        ∃ pStr, trimmedFile fs (joinPath dir cgroupV1CPUPeriodFile) = .ok pStr ∧
          parseInt pStr = some period.toInt ∧ 0 < period.toInt := by
    refine ⟨Eval.ofExcept_safe _, fun currPeriod same period found => ?_⟩
    have scanned := Eval.ofExcept_eq_ok same
    cases content : trimmedFile fs (joinPath dir cgroupV1CPUPeriodFile) with
    | error err =>
      rw [content, scanPeriod] at scanned
      split_ifs at scanned
      cases scanned
      cases found
    | ok pStr =>
      rw [content, scanPeriod] at scanned
      generalize parsed : parsePositive pStr _ = outcome at scanned
      cases outcome with
      | error err => cases scanned
      | ok n =>
        cases scanned
        cases found
        exact ⟨pStr, rfl, parsePositive_ok parsed⟩
  refine (sure_lift period).bind fun currPeriod paired => (readTrimmedFile_sure _).bind ?_
  rintro _ rfl
  apply sure_lift
  have met : Minimum (quotasV1 fs) dirs ((currPeriod.map s.meet).getD s) := by
    cases currPeriod with
    | none => exact h
    | some period => exact h.meet period
  generalize (currPeriod.map s.meet).getD s = s' at met
  cases content : trimmedFile fs (joinPath dir cgroupV1CPUQuotaFile) with
  | error err =>
    rw [scanQuota]
    refine Eval.yields_ite (fun _ => Eval.yields_ok (met.pass ?_)) fun _ => Eval.yields_fail _ _
    rintro ⟨qStr, there, -⟩
    cases content.symm.trans there
  | ok qStr =>
    rw [scanQuota]
    refine Eval.yields_ite (fun limited => ?_) fun unlimited => ?_
    · simp only [Bool.and_eq_true, decide_eq_true_eq] at limited
      refine (yields_parsePositive _ _).bind fun quota q => ?_
      cases currPeriod with
      | none => exact Eval.yields_fail _ _
      | some period =>
        obtain ⟨pStr, there, p⟩ := paired period rfl
        exact met.offer ⟨qStr, pStr, ⟨content, limited⟩, there, q, p⟩
    · refine Eval.yields_ok (met.pass ?_)
      rintro ⟨_, there, limited⟩
      cases content.symm.trans there
      exact unlimited (by simpa using limited)

end

/-- **The quota found is the exact minimum.**  A traversal never panics, and where it succeeds
it says whether any visited directory is limited, and gives the quota and the period of one
with the smallest ratio.  Positive pairs are compared as rationals. -/
theorem traverseCPU_minimum (fs : FileSystem) (target root : Bytes) :
    Sure (traverseCgroupV2CPUMax fs target root) (Minimum (quotasV2 fs) (visited root target)) ∧
    Sure (traverseCgroupV1CPU fs root target) (Minimum (quotasV1 fs) (visited root target)) ∧
    ∀ quota period previousQuota previousPeriod : Int64, 0 < quota.toInt → 0 < period.toInt →
      0 < previousQuota.toInt → 0 < previousPeriod.toInt →
      (tighterCPUQuota quota period previousQuota previousPeriod = true ↔
        ratio quota period < ratio previousQuota previousPeriod) := by
  refine ⟨?_, ?_, fun _ _ _ _ => tighterCPUQuota_iff⟩
  · rw [traverseCgroupV2CPUMax, walk_visited]
    exact sure_foldlM (fun _ _ _ => visitCPUMax_sure) _ [] _ .start
  · rw [traverseCgroupV1CPU, walk_visited]
    exact sure_foldlM (fun _ _ _ => visitV1CPU_sure) _ [] _ .start

/-- The process is not limited itself, and half a processor is left to its parent. -/
def halved : FileSystem where
  stat _ := none
  file path :=
    if path = lit "/c/a/cpu.max" then .ok (lit "max 200000", none)
    else if path = lit "/c/cpu.max" then .ok (lit "50000 100000", none)
    else .error (.sentinel .osErrNotExist)

/-- What a traversal found, as numbers. -/
def found (r : Eval Err CPUScan) : Option (Int × Option Int × Bool) :=
  r.toOption.map fun s => (s.minQuota.toInt, s.foundPeriod.map (·.toInt), s.hasQuota)

theorem traverseCPU_minimum_halved :
    found (traverseCgroupV2CPUMax halved (lit "/c/a") (lit "/c") []).1 = some (50000, some 100000, true) ∧
      ∃ dir ∈ visited (lit "/c") (lit "/c/a"), (quotasV2 halved).finite dir := by
  have ran : found (traverseCgroupV2CPUMax halved (lit "/c/a") (lit "/c") []).1 = some (50000, some 100000, true) := by
    decide +kernel
  obtain ⟨s, ended, shown⟩ := Option.map_eq_some_iff.mp ran
  have least := ((traverseCPU_minimum halved (lit "/c/a") (lit "/c")).1 []).2 s (Eval.eq_ok_of_toOption ended)
  refine ⟨ran, least.found.mp ?_⟩
  rw [Prod.mk.injEq, Prod.mk.injEq] at shown
  exact shown.2.2

end Microfat.Bench
