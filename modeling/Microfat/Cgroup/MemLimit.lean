/-
# Microfat.Cgroup.MemLimit — the `GOMEMLIMIT` values that count as finite

A memory limit is a run of digits and at most one of five units.
`RuntimeMemoryLimit` strips a unit and hands the rest to the integer parser, which
also takes a plus sign: `+64MiB` is a finite limit, as the tests of the source ask.

`runtimeMemoryLimit_reads` is the whole grammar.  The multiplications are `int64`
operations that trap where they would wrap; `machineMemoryLimit_eq` says that they
never do.
-/
import Microfat.Cgroup.Tuning
import Microfat.Theory.Eval

namespace Microfat.Cgroup

open Theory Theory.Json

set_option autoImplicit false

/-! ## Multiplications as the machine performs them -/

variable {n multiplier : Int} {suffix : Bytes}

/-- A product of two `int64` values. -/
def mulInt (a b : Int) : Eval Err Int :=
  if InInt64 (a * b) then .ok (a * b) else .error (.trap .wrap)

/-- `for range i { multiplier *= unitBase }`. -/
def unitMultiplier : Nat → Eval Err Int
  | 0 => .ok 1
  | i + 1 => do
      let multiplier ← unitMultiplier i
      mulInt multiplier 1024

/-- The suffix and the multiplier of a value, by the position of its unit. -/
def machineUnit (value : Bytes) : Eval Err (Bytes × Int) :=
  match memoryUnits.findIdx? fun unit =>
      hasSuffix value unit.1 && (unit.1 ≠ lit "B" || !hasSuffix value (lit "iB")) with
  | some i => do
      let multiplier ← unitMultiplier i
      return (trimSuffix value (memoryUnits.getD i ([], 1)).1, multiplier)
  | none => .ok (value, 1)

/-- `RuntimeMemoryLimit` with its `int64` products. -/
def machineMemoryLimit (value : Bytes) : Eval Err Int := do
  let (value, multiplier) ← machineUnit value
  match parseInt value with
  | none => .ok 0
  | some n =>
    if n ≤ 0 || maxInt64 / multiplier < n then .ok 0
    else do
      let product ← mulInt n multiplier
      if product = maxInt64 then .ok 0 else mulInt n multiplier

/-- A product past the division test fits. -/
theorem mulInt_checked (positive : 0 < n) (unit : 0 < multiplier) (checked : n ≤ maxInt64 / multiplier) :
    mulInt n multiplier = .ok (n * multiplier) := by
  have bound : n * multiplier ≤ maxInt64 := (Int.le_ediv_iff_mul_le unit).mp checked
  have lower : 0 < n * multiplier := Int.mul_pos positive unit
  rw [maxInt64] at bound
  exact if_pos ⟨by omega, by omega⟩

/-- The value without its unit, and the unit. -/
def stripUnit (value : Bytes) : Bytes × Int :=
  match unitOf value with
  | some (suffix, multiplier) => (trimSuffix value suffix, multiplier)
  | none => (value, 1)

/-- The limit of a number in some unit. -/
def scaled : Option Int → Int → Int
  | none, _ => 0
  | some n, multiplier =>
    if n ≤ 0 || maxInt64 / multiplier < n || n * multiplier = maxInt64 then 0 else n * multiplier

section

variable (value : Bytes)

theorem runtimeMemoryLimit_eq :
    runtimeMemoryLimit value = scaled (parseInt (stripUnit value).1) (stripUnit value).2 := by
  rw [runtimeMemoryLimit, stripUnit]
  rcases unitOf value with - | ⟨suffix, multiplier⟩
  · dsimp only
    cases parseInt value <;> rfl
  · dsimp only
    cases parseInt (trimSuffix value suffix) <;> rfl

theorem machineUnit_eq : machineUnit value = .ok (stripUnit value) := by
  -- the position of the first unit that fits decides both readings
  unfold machineUnit stripUnit unitOf
  generalize (fun unit : Bytes × Int =>
    hasSuffix value unit.1 && (decide (unit.1 ≠ lit "B") || !hasSuffix value (lit "iB"))) = fits
  simp only [memoryUnits, List.findIdx?_cons, List.find?_cons, List.findIdx?_nil, List.find?_nil]
  cases fits (lit "B", 1) with
  | true => rfl
  | false =>
    cases fits (lit "KiB", 1024) with
    | true => rfl
    | false =>
      cases fits (lit "MiB", 1024 ^ 2) with
      | true => rfl
      | false =>
        cases fits (lit "GiB", 1024 ^ 3) with
        | true => rfl
        | false =>
          cases fits (lit "TiB", 1024 ^ 4) with
          | true => rfl
          | false => rfl

theorem unitOf_some {value : Bytes} (found : unitOf value = some (suffix, multiplier)) :
    (suffix, multiplier) ∈ memoryUnits ∧ hasSuffix value suffix = true := by
  refine ⟨List.mem_of_find?_eq_some found, ?_⟩
  have fits := List.find?_some found
  rw [Bool.and_eq_true] at fits
  exact fits.1

theorem memoryUnits_positive : ∀ unit ∈ memoryUnits, 0 < unit.2 := by decide

theorem stripUnit_positive : 0 < (stripUnit value).2 := by
  unfold stripUnit
  cases found : unitOf value with
  | none => exact Int.one_pos
  | some unit => exact memoryUnits_positive unit (unitOf_some found).1

/-- No product of `RuntimeMemoryLimit` wraps. -/
theorem machineMemoryLimit_eq : machineMemoryLimit value = .ok (runtimeMemoryLimit value) := by
  rw [machineMemoryLimit, machineUnit_eq, Eval.ok_bind, runtimeMemoryLimit_eq]
  have unit := stripUnit_positive value
  generalize stripUnit value = chosen at unit ⊢
  obtain ⟨rest, multiplier⟩ := chosen
  dsimp only at unit ⊢
  cases parseInt rest with
  | none => rfl
  | some n =>
    simp only [scaled]
    by_cases refused : n ≤ 0 ∨ maxInt64 / multiplier < n
    · rw [if_pos (by simpa using refused), if_pos (by
        rw [Bool.or_eq_true]
        exact .inl (by simpa using refused))]
    · rw [if_neg (by simpa using refused)]
      rw [not_or] at refused
      rw [mulInt_checked (by omega) unit (by omega), Eval.ok_bind]
      by_cases unlimited : n * multiplier = maxInt64
      · rw [if_pos unlimited, if_pos (by simp [unlimited])]
      · rw [if_neg unlimited, if_neg (by simpa [unlimited] using refused)]

end

/-! ## The syntax of a limit -/

variable {text : Bytes}

/-- The suffixes of a limit and what they multiply by. -/
def memorySuffixes : List (Bytes × Int) := ([], 1) :: memoryUnits

/-- A value of `GOMEMLIMIT` that stands for the finite limit `n`: digits, at most
one unit, and a product below the runtime's "no limit". -/
structure FiniteSetting (s : Bytes) (n : Int) : Prop where
  shape : ∃ digits suffix multiplier, (suffix, multiplier) ∈ memorySuffixes ∧ s = digits ++ suffix ∧
    digits ≠ [] ∧ (∀ b ∈ digits, isDigit b = true) ∧ n = digitsValue digits * multiplier
  positive : 0 < n
  finite : n < maxInt64

/-- A text without the letters that end every unit. -/
def Unitless (text : Bytes) : Prop := (66 : UInt8) ∉ text ∧ (105 : UInt8) ∉ text

theorem unitless_digits {digits : Bytes} (digit : ∀ b ∈ digits, isDigit b = true) :
    Unitless digits :=
  ⟨fun mem => absurd (digit 66 mem) (by decide), fun mem => absurd (digit 105 mem) (by decide)⟩

theorem Unitless.plus {digits : Bytes} (free : Unitless digits) : Unitless (43 :: digits) := by
  refine ⟨fun mem => ?_, fun mem => ?_⟩
  · exact free.1 ((List.mem_cons.mp mem).resolve_left (by decide))
  · exact free.2 ((List.mem_cons.mp mem).resolve_left (by decide))

theorem unitOf_unitless (free : Unitless text) : unitOf text = none := by
  rw [unitOf, List.find?_eq_none]
  intro unit mem fits
  rw [Bool.and_eq_true] at fits
  have ends : ∀ unit ∈ memoryUnits, (66 : UInt8) ∈ unit.1 := by decide
  exact free.1 ((List.isSuffixOf_iff_suffix.mp fits.1).subset (ends unit mem))

theorem isPrefixOf_of_notMem {c : UInt8} {l : Bytes} (absent : c ∉ l) (rest : Bytes) :
    (c :: rest).isPrefixOf l = false := by
  cases l with
  | nil => rfl
  | cons b l =>
    have different : c ≠ b := fun same => absent (same ▸ List.mem_cons_self)
    simp [List.isPrefixOf, different]

/-- The unit of a text and a suffix is that suffix: no unit reaches into the text. -/
theorem unitOf_append (free : Unitless text) (unit : (suffix, multiplier) ∈ memoryUnits) :
    unitOf (text ++ suffix) = some (suffix, multiplier) := by
  have letterI := isPrefixOf_of_notMem (mt List.mem_reverse.mp free.2)
  simp only [memoryUnits, List.mem_cons, List.not_mem_nil, or_false, Prod.mk.injEq] at unit
  rcases unit with ⟨rfl, rfl⟩ | ⟨rfl, rfl⟩ | ⟨rfl, rfl⟩ | ⟨rfl, rfl⟩ | ⟨rfl, rfl⟩ <;>
    simp [unitOf, memoryUnits, hasSuffix, List.isSuffixOf, lit, letterI, List.isPrefixOf]

/-- What is stripped from a value is a suffix of the syntax. -/
theorem stripUnit_suffix (value : Bytes) : ∃ suffix,
    (suffix, (stripUnit value).2) ∈ memorySuffixes ∧ value = (stripUnit value).1 ++ suffix := by
  unfold stripUnit
  cases found : unitOf value with
  | none => exact ⟨[], List.mem_cons_self, (List.append_nil value).symm⟩
  | some unit =>
    obtain ⟨suffix, multiplier⟩ := unit
    obtain ⟨known, ends⟩ := unitOf_some found
    obtain ⟨front, whole⟩ := List.isSuffixOf_iff_suffix.mp ends
    refine ⟨suffix, List.mem_cons_of_mem _ known, ?_⟩
    dsimp only
    rw [← whole, trimSuffix_append]

theorem stripUnit_append (free : Unitless text) (unit : (suffix, multiplier) ∈ memorySuffixes) :
    stripUnit (text ++ suffix) = (text, multiplier) := by
  unfold stripUnit
  rcases List.mem_cons.mp unit with none | some
  · obtain ⟨rfl, rfl⟩ := Prod.mk.inj none
    rw [List.append_nil, unitOf_unitless free]
  · rw [unitOf_append free some]
    dsimp only
    rw [trimSuffix_append]

/-! ## Which strings are finite limits -/

/-- A number that was accepted and scaled. -/
theorem scaled_iff {parsed : Option Int} (unit : 0 < multiplier) (positive : 0 < n) :
    scaled parsed multiplier = n ↔ ∃ m, parsed = some m ∧ 0 < m ∧ n = m * multiplier ∧ n < maxInt64 := by
  cases parsed with
  | none => exact iff_of_false (by simp only [scaled]; omega) (by simp)
  | some m =>
    simp only [scaled, Option.some.injEq, exists_eq_left']
    split
    · rename_i refused
      refine iff_of_false (by omega) ?_
      rintro ⟨pos, same, finite⟩
      have bound : m ≤ maxInt64 / multiplier := (Int.le_ediv_iff_mul_le unit).mpr (by omega)
      simp only [Bool.or_eq_true, decide_eq_true_eq] at refused
      omega
    · rename_i accepted
      simp only [Bool.or_eq_true, decide_eq_true_eq, not_or] at accepted
      have bound : m * multiplier ≤ maxInt64 :=
        (Int.le_ediv_iff_mul_le unit).mp (by omega)
      constructor
      · rintro rfl
        exact ⟨by omega, rfl, by omega⟩
      · exact fun h => h.2.1.symm

/-- A finite setting, or one behind a plus sign. -/
def SignedSetting (s : Bytes) (n : Int) : Prop :=
  FiniteSetting s n ∨ ∃ rest, s = 43 :: rest ∧ FiniteSetting rest n

theorem runtimeMemoryLimit_accepts {s : Bytes} (positive : 0 < n) :
    runtimeMemoryLimit s = n ↔ SignedSetting s n := by
  rw [runtimeMemoryLimit_eq, scaled_iff (stripUnit_positive s) positive]
  constructor
  · rintro ⟨m, parsed, pos, same, finite⟩
    obtain ⟨suffix, unit, whole⟩ := stripUnit_suffix s
    obtain ⟨-, plain | ⟨digits, plus, parsed⟩⟩ := (parseInt_iff pos).mp parsed
    · obtain ⟨nonempty, digit, value⟩ := parseDigits_iff.mp plain
      refine .inl ⟨⟨_, suffix, _, unit, whole, nonempty, digit, ?_⟩, positive, finite⟩
      rw [← value, Int.toNat_of_nonneg pos.le, same]
    · obtain ⟨nonempty, digit, value⟩ := parseDigits_iff.mp parsed
      refine .inr ⟨digits ++ suffix, ?_, ⟨digits, suffix, _, unit, rfl, nonempty, digit, ?_⟩,
        positive, finite⟩
      · rw [plus] at whole
        exact whole
      · rw [← value, Int.toNat_of_nonneg pos.le, same]
  · have reads : ∀ digits suffix multiplier, (suffix, multiplier) ∈ memorySuffixes →
        digits ≠ [] → (∀ b ∈ digits, isDigit b = true) → n = digitsValue digits * multiplier →
        n < maxInt64 → 0 < (digitsValue digits : Int) ∧ (digitsValue digits : Int) < 2 ^ 63 := by
      intro digits suffix multiplier unit nonempty digit value finite
      have unitPositive : 0 < multiplier := by
        rcases List.mem_cons.mp unit with none | some
        · rw [(Prod.mk.inj none).2]
          decide
        · exact memoryUnits_positive _ some
      have some : 0 < (digitsValue digits : Int) := by
        rw [value] at positive
        exact pos_of_mul_pos_left positive unitPositive.le
      have least : (digitsValue digits : Int) ≤ n := by
        rw [value]
        exact le_mul_of_one_le_right some.le unitPositive
      rw [maxInt64] at finite
      exact ⟨some, by omega⟩
    rintro (setting | ⟨rest, rfl, setting⟩)
    · obtain ⟨digits, suffix, multiplier, unit, rfl, nonempty, digit, value⟩ := setting.shape
      obtain ⟨some, small⟩ := reads digits suffix multiplier unit nonempty digit value setting.finite
      rw [stripUnit_append (unitless_digits digit) unit]
      refine ⟨digitsValue digits, (parseInt_iff some).mpr ⟨small, .inl ?_⟩, some, value,
        setting.finite⟩
      exact parseDigits_iff.mpr ⟨nonempty, digit, rfl⟩
    · obtain ⟨digits, suffix, multiplier, unit, rfl, nonempty, digit, value⟩ := setting.shape
      obtain ⟨some, small⟩ := reads digits suffix multiplier unit nonempty digit value setting.finite
      rw [← List.cons_append, stripUnit_append (unitless_digits digit).plus unit]
      refine ⟨digitsValue digits, (parseInt_iff some).mpr ⟨small, .inr ⟨digits, rfl, ?_⟩⟩, some, value,
        setting.finite⟩
      exact parseDigits_iff.mpr ⟨nonempty, digit, rfl⟩

theorem runtimeMemoryLimit_nonneg (s : Bytes) : 0 ≤ runtimeMemoryLimit s := by
  rw [runtimeMemoryLimit_eq]
  have unit := stripUnit_positive s
  cases parseInt (stripUnit s).1 with
  | none => exact le_rfl
  | some n =>
    simp only [scaled]
    split
    · exact le_rfl
    · rename_i accepted
      simp only [Bool.or_eq_true, decide_eq_true_eq, not_or] at accepted
      exact (Int.mul_pos (by omega) unit).le

/-- **The finite limits are the numbers with at most one unit, with or without a plus
sign.**  Every other string gives zero, and no product wraps. -/
theorem runtimeMemoryLimit_reads (s : Bytes) :
    ∃ result, machineMemoryLimit s = .ok result ∧
      (∀ n, 0 < n → (result = n ↔ SignedSetting s n)) ∧
      ((¬ ∃ n, SignedSetting s n) → result = 0) := by
  refine ⟨_, machineMemoryLimit_eq s, fun n positive => runtimeMemoryLimit_accepts positive,
    fun none => ?_⟩
  by_contra nonzero
  have positive : 0 < runtimeMemoryLimit s := by
    have := runtimeMemoryLimit_nonneg s
    omega
  exact none ⟨_, (runtimeMemoryLimit_accepts positive).mp rfl⟩

theorem not_finiteSetting_plus (rest : Bytes) (n : Int) : ¬ FiniteSetting (43 :: rest) n := by
  rintro ⟨⟨digits, suffix, multiplier, -, whole, nonempty, digit, -⟩, -, -⟩
  obtain ⟨b, more, rfl⟩ := List.exists_cons_of_ne_nil nonempty
  have same : b = 43 := (List.cons.inj whole).1.symm
  exact absurd (digit b List.mem_cons_self) (by rw [same]; decide)

/-- A plus sign is accepted: `+5` is read as five bytes. -/
theorem plus_five_accepted :
    machineMemoryLimit [43, 53] = .ok 5 ∧ ∀ n, ¬ FiniteSetting [43, 53] n := by
  have finite : FiniteSetting [53] 5 :=
    ⟨⟨[53], [], 1, List.mem_cons_self, rfl, nofun, by simp [isDigit], by simp [digitsValue_single]⟩,
      by decide, by decide⟩
  have read : runtimeMemoryLimit [43, 53] = 5 :=
    (runtimeMemoryLimit_accepts (by decide)).mpr (.inr ⟨[53], rfl, finite⟩)
  exact ⟨by rw [machineMemoryLimit_eq, read], not_finiteSetting_plus [53]⟩

end Microfat.Cgroup
