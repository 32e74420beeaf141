/-
# Microfat.Cgroup.ByteSize — byte sizes are parsed exactly

A byte size is a decimal number and a binary unit.  `ParseByteSize` works on the
digits: the whole part from the left, checked before every digit, and the fraction
from the right by schoolbook carries, of which only the last carry, the last
remainder and "some remainder was not zero" survive.

`scanFraction_eq` says what those three are: the whole bytes of the fraction, its
first decimal digit, and whether anything is left.  With it `parseByteSize_exact`
compares the parser with the exact rational value of the text: it accepts a value
exactly when it is at most the largest `int64`, and rounds half up.

`machineByteSize` is the parser with its `uint64` operations, which trap where they
would wrap.
-/
import Microfat.Cgroup.Tuning
import Microfat.Theory.Meter
import Microfat.Theory.Runes

namespace Microfat.Cgroup

open Theory Theory.Json

set_option autoImplicit false

/-! ## The parser on machine words -/

def machineWhole (s : Bytes) (maxWhole : Nat) : Nat → Bytes → Eval Err Nat
  | whole, [] => .ok whole
  | whole, ch :: rest =>
    let d := ch.toNat - 48
    if maxWhole / 10 < whole || (whole = maxWhole / 10 && maxWhole % 10 < d) then
      .fail (exceedsMaxInt64 s)
    else do
      let shifted ← mulU64 whole 10
      let whole ← addU64 shifted d
      machineWhole s maxWhole whole rest

def machineFraction (multiplier : Nat) : Bytes → Eval Err (Nat × Nat × Bool)
  | [] => .ok (0, 0, false)
  | ch :: rest => do
      let (fracCarry, _, hasNonzeroFrac) ← machineFraction multiplier rest
      let scaled ← mulU64 (ch.toNat - 48) multiplier
      let v ← addU64 scaled fracCarry
      return (v / 10, v % 10, hasNonzeroFrac || v % 10 ≠ 0)

/-- The digits before and after the point. -/
def numberParts (numStr : Bytes) : Option Nat → Bytes × Bytes
  | none => (numStr, [])
  | some i => (numStr.take i, numStr.drop (i + 1))

section

variable [CaseTable]

/-- `ParseByteSize` with its `uint64` operations. -/
def machineByteSize (s : Bytes) : Eval Err Int64 := do
  let (numStr, unitStr, dotIndex) ← Eval.ofExcept (splitByteSizeToken s)
  let multiplier ← Eval.ofExcept (resolveByteMultiplier unitStr s)
  let (wholeStr, fracStr) := numberParts numStr dotIndex
  let maxInt64 := 2 ^ 63 - 1
  let whole ← machineWhole s (maxInt64 / multiplier) 0 wholeStr
  let wholeBytes ← mulU64 whole multiplier
  let (fracCarry, firstFracDigit, hasNonzeroFrac) ← machineFraction multiplier fracStr
  let remaining ← subU64 maxInt64 wholeBytes
  Eval.guard (remaining < fracCarry) (exceedsMaxInt64 s)
  let integralBytes ← addU64 wholeBytes fracCarry
  Eval.guard (integralBytes = maxInt64 && hasNonzeroFrac) (exceedsMaxInt64 s)
  let roundCarry := if 5 ≤ firstFracDigit then 1 else 0
  Eval.guard (0 < roundCarry && maxInt64 ≤ integralBytes) (exceedsMaxInt64 s)
  let integralBytes ← addU64 integralBytes roundCarry
  Eval.guard (maxInt64 < integralBytes) (exceedsMaxInt64 s)
  return Int64.ofNat integralBytes

end

/-! ## Digits -/

/-- The bound test before a digit is exact. -/
theorem whole_test (maxWhole whole d : Nat) (digit : d ≤ 9) :
    (decide (maxWhole / 10 < whole) || (decide (whole = maxWhole / 10) && decide (maxWhole % 10 < d))) =
      decide (maxWhole < whole * 10 + d) := by
  rw [Bool.eq_iff_iff]
  simp only [Bool.or_eq_true, Bool.and_eq_true, decide_eq_true_eq]
  omega

section

variable (s : Bytes)

/-- The whole part is accepted up to the bound, and then it is the number. -/
theorem scanWhole_eq {maxWhole : Nat} : ∀ {digits : Bytes} {whole : Nat},
    (∀ b ∈ digits, isDigit b = true) → whole ≤ maxWhole →
    scanWhole s maxWhole whole digits =
      if whole * 10 ^ digits.length + digitsValue digits ≤ maxWhole then
        .ok (whole * 10 ^ digits.length + digitsValue digits)
      else .error (exceedsMaxInt64 s) := by
  intro digits
  induction digits with
  | nil =>
    intro whole _ fits
    simp [scanWhole, fits]
  | cons ch rest ih =>
    intro whole digit fits
    have small := digit_le (digit ch List.mem_cons_self)
    have same : whole * 10 ^ (ch :: rest).length + digitsValue (ch :: rest) =
        (whole * 10 + (ch.toNat - 48)) * 10 ^ rest.length + digitsValue rest := by
      rw [digitsValue_cons, List.length_cons, pow_succ]
      ring
    have grows : whole * 10 + (ch.toNat - 48) ≤ (whole * 10 + (ch.toNat - 48)) * 10 ^ rest.length :=
      Nat.le_mul_of_pos_right _ (Nat.pow_pos (by omega))
    rw [scanWhole, whole_test _ _ _ small, same]
    by_cases exceeds : maxWhole < whole * 10 + (ch.toNat - 48)
    · rw [if_pos (by simpa using exceeds), if_neg (by omega)]
    · rw [if_neg (by simpa using exceeds),
        ih (fun b mem => digit b (List.mem_cons_of_mem _ mem)) (by omega)]

/-- The carries of the fraction: its whole bytes, the digit after them, and whether
anything is left.  Induction from the last digit, as the source goes. -/
theorem scanFraction_eq (multiplier : Nat) (frac : Bytes) :
    scanFraction multiplier frac =
      (digitsValue frac * multiplier / 10 ^ frac.length,
        10 * (digitsValue frac * multiplier) / 10 ^ frac.length % 10,
        decide (digitsValue frac * multiplier % 10 ^ frac.length ≠ 0)) := by
  induction frac with
  | nil => simp [scanFraction]
  | cons ch rest ih =>
    rw [scanFraction, ih]
    dsimp only
    have power : 0 < 10 ^ rest.length := by positivity
    generalize value : digitsValue rest * multiplier = tail
    have whole : digitsValue (ch :: rest) * multiplier =
        10 ^ rest.length * ((ch.toNat - 48) * multiplier) + tail := by
      rw [digitsValue_cons, ← value]
      ring
    have step : (ch.toNat - 48) * multiplier + tail / 10 ^ rest.length =
        digitsValue (ch :: rest) * multiplier / 10 ^ rest.length := by
      rw [whole, Nat.mul_add_div power]
    have rest_mod : digitsValue (ch :: rest) * multiplier % 10 ^ rest.length =
        tail % 10 ^ rest.length := by
      rw [whole, Nat.mul_add_mod]
    rw [step, List.length_cons, pow_succ, ← Nat.div_div_eq_div_mul]
    refine Prod.ext rfl (Prod.ext ?_ ?_)
    · dsimp only
      rw [Nat.mul_comm (10 ^ rest.length) 10, Nat.mul_div_mul_left _ _ (by omega)]
    · dsimp only
      rw [Nat.mod_mul, rest_mod, Bool.eq_iff_iff]
      simp only [Bool.or_eq_true, decide_eq_true_eq, ne_eq]
      have positive := power.ne'
      constructor
      · rintro (left | here)
        · omega
        · intro zero
          have := (Nat.add_eq_zero_iff.mp zero).2
          rcases Nat.mul_eq_zero.mp this with none | digit
          · exact positive none
          · exact here digit
      · intro some
        by_contra none
        rw [not_or, not_not, not_not] at none
        rw [none.1, none.2] at some
        simp at some

/-! ## No operation wraps -/

theorem machineWhole_eq {maxWhole : Nat} (bounded : maxWhole < 2 ^ 63) :
    ∀ {digits : Bytes} {whole : Nat}, (∀ b ∈ digits, isDigit b = true) → whole ≤ maxWhole →
      machineWhole s maxWhole whole digits = Eval.ofExcept (scanWhole s maxWhole whole digits) := by
  intro digits
  induction digits with
  | nil => exact fun _ _ => rfl
  | cons ch rest ih =>
    intro whole digit fits
    have small := digit_le (digit ch List.mem_cons_self)
    rw [machineWhole, scanWhole]
    rw [whole_test _ _ _ small]
    by_cases exceeds : maxWhole < whole * 10 + (ch.toNat - 48)
    · rw [if_pos (by simpa using exceeds), if_pos (by simpa using exceeds)]
      rfl
    · rw [if_neg (by simpa using exceeds), if_neg (by simpa using exceeds), mulU64,
        if_pos (by omega), Eval.ok_bind, addU64, if_pos (by omega), Eval.ok_bind,
        ih (fun b mem => digit b (List.mem_cons_of_mem _ mem)) (by omega)]

theorem scanFraction_carry (multiplier : Nat) (frac : Bytes) :
    (scanFraction multiplier frac).1 ≤ 256 * multiplier := by
  induction frac with
  | nil => exact Nat.zero_le _
  | cons ch rest ih =>
    rw [scanFraction]
    dsimp only
    have byte := ch.toNat_lt
    have product : (ch.toNat - 48) * multiplier ≤ 256 * multiplier :=
      Nat.mul_le_mul_right _ (by omega)
    omega

theorem machineFraction_eq {multiplier : Nat} (bounded : multiplier ≤ 2 ^ 40) (frac : Bytes) :
    machineFraction multiplier frac = .ok (scanFraction multiplier frac) := by
  induction frac with
  | nil => rfl
  | cons ch rest ih =>
    have byte := ch.toNat_lt
    have product : (ch.toNat - 48) * multiplier ≤ 256 * multiplier :=
      Nat.mul_le_mul_right _ (by omega)
    have carry := scanFraction_carry multiplier rest
    rw [machineFraction, ih, Eval.ok_bind, scanFraction]
    dsimp only
    rw [mulU64, if_pos (by omega), Eval.ok_bind, addU64, if_pos (by omega), Eval.ok_bind]
    rfl

/-! ## The number in front -/

/-- Nothing of a number is left: the text does not go on with a digit or a point. -/
def NumberEnds (rest : Bytes) : Prop :=
  ∀ b ∈ rest.head?, isDigit b = false ∧ b ≠ 46

theorem scanNumber_digits (rest : Bytes) : ∀ {digits : Bytes} {i : Nat} {dot : Option Nat}
    {count : Nat}, (∀ b ∈ digits, isDigit b = true) →
    scanNumber s i dot count (digits ++ rest) =
      scanNumber s (i + digits.length) dot (count + digits.length) rest := by
  intro digits
  induction digits with
  | nil => exact fun _ => rfl
  | cons ch digits ih =>
    intro i dot count digit
    rw [List.cons_append, scanNumber, if_pos (digit ch List.mem_cons_self),
      ih fun b mem => digit b (List.mem_cons_of_mem _ mem), List.length_cons]
    congr 1 <;> omega

theorem scanNumber_ends {rest : Bytes} (ends : NumberEnds rest) (i : Nat) (dot : Option Nat) (count : Nat) :
    scanNumber s i dot count rest = .ok (i, dot, count) := by
  cases rest with
  | nil => rfl
  | cons ch rest =>
    obtain ⟨digit, point⟩ := ends ch rfl
    rw [scanNumber, if_neg (by simp [digit]), if_neg point]

theorem scanNumber_point (i : Nat) (dot : Option Nat) (count : Nat) (rest : Bytes) :
    scanNumber s i dot count (46 :: rest) =
      if dot.isSome then
        .error (.errorf [.text "invalid byte size ", .quoted s, .text ": multiple decimal points"] [] [])
      else scanNumber s (i + 1) (some i) count rest := by
  rw [scanNumber, if_neg (by decide), if_pos rfl]

end

/-- The digits in front of a text. -/
theorem digits_split (text : Bytes) : ∃ digits rest, text = digits ++ rest ∧
    (∀ b ∈ digits, isDigit b = true) ∧ ∀ b ∈ rest.head?, isDigit b = false := by
  refine ⟨text.takeWhile isDigit, text.dropWhile isDigit, List.takeWhile_append_dropWhile.symm,
    fun b mem => List.mem_takeWhile_imp mem, ?_⟩
  intro b head
  have stopped := List.head?_dropWhile_not isDigit text
  rw [Option.mem_def.mp head] at stopped
  simpa using stopped

/-- A number as its parts: the digits before the point, and those after it if there is
a point. -/
structure Number (num whole frac : Bytes) (dot : Option Nat) : Prop where
  whole_digits : ∀ b ∈ whole, isDigit b = true
  frac_digits : ∀ b ∈ frac, isDigit b = true
  parts : (num = whole ∧ frac = [] ∧ dot = none) ∨ (num = whole ++ 46 :: frac ∧ dot = some whole.length)

namespace Number

variable {num whole frac rest : Bytes} {dot : Option Nat}

section

variable (number : Number num whole frac dot)

include number

theorem numberParts : numberParts num dot = (whole, frac) := by
  rcases number.parts with ⟨plain, none, noDot⟩ | ⟨pointed, dotted⟩
  · rw [noDot, plain, none]
    rfl
  · rw [dotted, pointed, Cgroup.numberParts, List.take_left, ← List.drop_drop, List.drop_left]
    rfl

theorem ne_nil (some_digit : whole ++ frac ≠ []) : num ≠ [] := by
  rcases number.parts with ⟨plain, none, _⟩ | ⟨pointed, _⟩
  · rwa [none, List.append_nil, ← plain] at some_digit
  · simp [pointed]

theorem scanNumber (ends : NumberEnds rest) (s : Bytes) :
    scanNumber s 0 none 0 (num ++ rest) = .ok (num.length, dot, (whole ++ frac).length) := by
  rcases number.parts with ⟨plain, none, noDot⟩ | ⟨pointed, dotted⟩
  · rw [plain, none, noDot, scanNumber_digits s rest number.whole_digits, scanNumber_ends s ends]
    simp
  · rw [pointed, dotted, List.append_assoc, scanNumber_digits s _ number.whole_digits, List.cons_append,
      scanNumber_point, if_neg (by simp), scanNumber_digits s rest number.frac_digits,
      scanNumber_ends s ends]
    simp only [Nat.zero_add, List.length_append, List.length_cons]
    congr 2
    omega

end

end Number

/-- Every text starts with a number, or goes on with a second point. -/
theorem number_split (text : Bytes) :
    (∃ num rest whole frac dot, text = num ++ rest ∧ Number num whole frac dot ∧ NumberEnds rest) ∨
      ∀ s, ∃ e, scanNumber s 0 none 0 text = .error e := by
  obtain ⟨whole, tail, text_eq, wholeDigits, wholeEnds⟩ := digits_split text
  by_cases point : tail.head? = some 46
  · obtain ⟨tail, rfl⟩ := List.head?_eq_some_iff.mp point
    obtain ⟨frac, rest, rfl, fracDigits, fracEnds⟩ := digits_split tail
    by_cases second : rest.head? = some 46
    · right
      intro s
      obtain ⟨rest, rfl⟩ := List.head?_eq_some_iff.mp second
      rw [text_eq, scanNumber_digits s _ wholeDigits, scanNumber_point, if_neg (by simp),
        scanNumber_digits s _ fracDigits, scanNumber_point, if_pos Option.isSome_some]
      exact ⟨_, rfl⟩
    · left
      refine ⟨whole ++ 46 :: frac, rest, whole, frac, some whole.length, by simp [text_eq],
        ⟨wholeDigits, fracDigits, .inr ⟨rfl, rfl⟩⟩, fun b head => ⟨fracEnds b head, ?_⟩⟩
      rintro rfl
      exact second head
  · left
    refine ⟨whole, tail, whole, [], none, text_eq, ⟨wholeDigits, List.forall_mem_nil _, .inl ⟨rfl, rfl, rfl⟩⟩,
      fun b head => ⟨wholeEnds b head, ?_⟩⟩
    rintro rfl
    exact point head

section

variable [CaseTable]

variable {s num rest : Bytes} {dot : Option Nat}

theorem splitByteSizeToken_of_number {whole frac : Bytes} (text : trimSpace s = num ++ rest)
    (number : Number num whole frac dot) (some_digit : whole ++ frac ≠ []) (ends : NumberEnds rest) :
    splitByteSizeToken s = .ok (num, toLower (trimSpace rest), dot) := by
  have counted : ¬ (whole ++ frac).length = 0 := by rwa [List.length_eq_zero_iff]
  have nonempty : ¬ num ++ rest = [] :=
    fun empty => number.ne_nil some_digit (List.append_eq_nil_iff.mp empty).1
  rw [splitByteSizeToken, text]
  simp only [nonempty, if_false, number.scanNumber ends, counted, List.take_left, List.drop_left,
    bind, Except.bind, pure, Except.pure]

variable {unit : Bytes}

/-- What `splitByteSizeToken` accepts is a number and what follows it. -/
theorem splitByteSizeToken_number (split : splitByteSizeToken s = .ok (num, unit, dot)) :
    ∃ rest whole frac, trimSpace s = num ++ rest ∧ Number num whole frac dot ∧ whole ++ frac ≠ [] ∧
      NumberEnds rest ∧ unit = toLower (trimSpace rest) := by
  rcases number_split (trimSpace s) with ⟨num', rest, whole, frac, dot', text, number, ends⟩ | failed
  · by_cases some_digit : whole ++ frac = []
    · -- Without a digit the parser refuses the text.
      exfalso
      rw [splitByteSizeToken, text] at split
      simp only [number.scanNumber ends, some_digit, List.length_nil, if_true, bind, Except.bind, throw,
        throwThe, MonadExceptOf.throw] at split
      split at split <;> cases split
    · have found := splitByteSizeToken_of_number text number some_digit ends
      rw [split, Except.ok.injEq, Prod.mk.injEq, Prod.mk.injEq] at found
      obtain ⟨rfl, unit_eq, rfl⟩ := found
      exact ⟨rest, whole, frac, text, number, some_digit, ends, unit_eq⟩
  · exfalso
    obtain ⟨e, scanned⟩ := failed s
    rw [splitByteSizeToken] at split
    simp only [scanned, bind, Except.bind, throw, throwThe, MonadExceptOf.throw] at split
    split at split <;> cases split

/-! ## Units -/

variable {multiplier : Nat}

/-- The unit names and what they stand for. -/
def byteUnits : List (List Bytes × Nat) :=
  [([[], lit "b", lit "byte", lit "bytes"], 1),
    ([lit "k", lit "kb", lit "kib"], 1024),
    ([lit "m", lit "mb", lit "mib"], 1024 ^ 2),
    ([lit "g", lit "gb", lit "gib"], 1024 ^ 3),
    ([lit "t", lit "tb", lit "tib"], 1024 ^ 4)]

def ByteUnit (unit : Bytes) (multiplier : Nat) : Prop :=
  ∃ names, (names, multiplier) ∈ byteUnits ∧ unit ∈ names

omit [CaseTable] in
theorem resolveByteMultiplier_iff (unit s : Bytes) (multiplier : Nat) :
    resolveByteMultiplier unit s = .ok multiplier ↔ ByteUnit unit multiplier := by
  constructor
  · intro resolved
    unfold resolveByteMultiplier at resolved
    split_ifs at resolved with plain kibi mebi gibi tebi
    all_goals cases resolved
    · exact ⟨_, .head _, plain⟩
    · exact ⟨_, .tail _ (.head _), kibi⟩
    · exact ⟨_, .tail _ (.tail _ (.head _)), mebi⟩
    · exact ⟨_, .tail _ (.tail _ (.tail _ (.head _))), gibi⟩
    · exact ⟨_, .tail _ (.tail _ (.tail _ (.tail _ (.head _)))), tebi⟩
  · rintro ⟨names, known, named⟩
    simp only [byteUnits, List.mem_cons, List.not_mem_nil, or_false, Prod.mk.injEq] at known
    rcases known with ⟨rfl, rfl⟩ | ⟨rfl, rfl⟩ | ⟨rfl, rfl⟩ | ⟨rfl, rfl⟩ | ⟨rfl, rfl⟩ <;>
      simp only [List.mem_cons, List.not_mem_nil, or_false] at named
    · rcases named with rfl | rfl | rfl | rfl <;> rfl
    all_goals rcases named with rfl | rfl | rfl <;> rfl

omit [CaseTable] in
theorem ByteUnit.bounds (known : ByteUnit unit multiplier) :
    0 < multiplier ∧ multiplier ≤ 2 ^ 40 := by
  obtain ⟨names, entry, _⟩ := known
  have bounds : ∀ entry ∈ byteUnits, 0 < entry.2 ∧ entry.2 ≤ 2 ^ 40 := by decide
  exact bounds _ entry

omit [CaseTable] in
theorem ByteUnit.letters {b : UInt8} (known : ByteUnit (b :: unit) multiplier) :
    isDigit b = false ∧ b ≠ 46 := by
  obtain ⟨names, entry, named⟩ := known
  have letters : ∀ entry ∈ byteUnits, ∀ name ∈ entry.1, ∀ c ∈ name.head?, isDigit c = false ∧ c ≠ 46 := by
    decide +kernel
  exact letters _ entry _ named b rfl

omit [CaseTable] in
/-- Trimming and lower-casing leave a digit or a point where it is. -/
theorem number_byte {b : UInt8} (number : isDigit b = true ∨ b = 46) :
    b.toNat < 0x80 ∧ isSpace b.toNat = false ∧ lowerByte b = b := by
  have code : b.toNat = 46 ∨ (48 ≤ b.toNat ∧ b.toNat ≤ 57) := by
    rcases number with digit | rfl
    · right
      simpa [isDigit] using digit
    · exact .inl rfl
  refine ⟨by omega, ?_, ?_⟩
  · simp only [isSpace, Bool.or_eq_false_iff, Bool.and_eq_false_iff, decide_eq_false_iff_not, beq_eq_false_iff_ne]
    omega
  · rw [lowerByte, if_neg]
    simp only [between, Bool.and_eq_true, decide_eq_true_eq]
    omega

/-- A unit name does not start with a digit or a point, so what stands before it is the
whole number. -/
theorem ByteUnit.numberEnds (known : ByteUnit (toLower (trimSpace rest)) multiplier) :
    NumberEnds rest := by
  cases rest with
  | nil => nofun
  | cons b rest =>
    rintro _ ⟨⟩
    by_contra number
    have number : isDigit b = true ∨ b = 46 := by
      by_contra other
      rw [not_or, Bool.not_eq_true] at other
      exact number other
    obtain ⟨ascii, visible, lowered⟩ := number_byte number
    obtain ⟨tail, kept⟩ := trimSpace_cons ascii visible rest
    rw [kept, toLower_cons ascii, lowered] at known
    obtain ⟨digit, point⟩ := known.letters
    simp [digit, point] at number

/-! ## Rounding -/

variable {scale : Nat}

omit [CaseTable] in
/-- The digit after the carry tells whether the rest is at least a half. -/
theorem half_iff (value : Nat) (positive : 0 < scale) :
    5 ≤ 10 * value / scale % 10 ↔ scale ≤ 2 * (value % scale) := by
  have split : 10 * value = scale * (10 * (value / scale)) + 10 * (value % scale) := by
    conv_lhs => rw [← Nat.div_add_mod value scale]
    ring
  have rest := Nat.mod_lt value positive
  have digit : 10 * (value % scale) / scale < 10 := (Nat.div_lt_iff_lt_mul positive).mpr (by omega)
  rw [split, Nat.mul_add_div positive, Nat.mul_add_mod, Nat.mod_eq_of_lt digit,
    Nat.le_div_iff_mul_le positive]
  omega

omit [CaseTable] in
/-- Rounding half up, by the whole bytes and the rest. -/
theorem rounded_eq (wholeBytes value : Nat) (positive : 0 < scale) :
    (2 * (wholeBytes * scale + value) + scale) / (2 * scale) =
      wholeBytes + value / scale + if scale ≤ 2 * (value % scale) then 1 else 0 := by
  have split : 2 * (wholeBytes * scale + value) + scale =
      2 * scale * (wholeBytes + value / scale) + (2 * (value % scale) + scale) := by
    conv_lhs => rw [← Nat.div_add_mod value scale]
    ring
  have rest := Nat.mod_lt value positive
  rw [split, Nat.mul_add_div (by omega)]
  congr 1
  split
  · rw [Nat.div_eq_iff (by omega)]
    omega
  · rw [Nat.div_eq_iff (by omega)]
    omega

omit [CaseTable] in
/-- The value is within a bound exactly when its whole bytes are below it, or at it with
nothing left. -/
theorem fits_iff (bound wholeBytes value : Nat) (positive : 0 < scale) :
    wholeBytes * scale + value ≤ bound * scale ↔
      wholeBytes + value / scale < bound ∨
        (wholeBytes + value / scale = bound ∧ value % scale = 0) := by
  have split : wholeBytes * scale + value = (wholeBytes + value / scale) * scale + value % scale := by
    conv_lhs => rw [← Nat.div_add_mod value scale]
    ring
  have rest := Nat.mod_lt value positive
  rw [split]
  generalize wholeBytes + value / scale = bytes
  rcases Nat.lt_trichotomy bytes bound with below | rfl | above
  · have : (bytes + 1) * scale ≤ bound * scale := Nat.mul_le_mul_right _ below
    rw [Nat.add_mul] at this
    exact ⟨fun _ => .inl below, fun _ => by omega⟩
  · omega
  · have : (bound + 1) * scale ≤ bytes * scale := Nat.mul_le_mul_right _ above
    rw [Nat.add_mul] at this
    exact ⟨fun _ => by omega, fun _ => by omega⟩

/-! ## The exact value -/

/-- The exact value of a byte size: a decimal number and a unit, in bytes. -/
def ByteSize (s : Bytes) (size : ℚ) : Prop :=
  ∃ num rest whole frac dot multiplier, trimSpace s = num ++ rest ∧ Number num whole frac dot ∧
    whole ++ frac ≠ [] ∧ ByteUnit (toLower (trimSpace rest)) multiplier ∧
    size = (digitsValue whole + digitsValue frac / 10 ^ frac.length) * multiplier

/-- The tests of `ParseByteSize` after its two scans. -/
def roundSize (s : Bytes) (wholeBytes fracCarry firstFracDigit : Nat) (hasNonzeroFrac : Bool) :
    Except Err Int64 := do
  if 2 ^ 63 - 1 - wholeBytes < fracCarry then throw (exceedsMaxInt64 s)
  let integralBytes := wholeBytes + fracCarry
  if integralBytes = 2 ^ 63 - 1 && hasNonzeroFrac then throw (exceedsMaxInt64 s)
  let roundCarry := if 5 ≤ firstFracDigit then 1 else 0
  if 0 < roundCarry && 2 ^ 63 - 1 ≤ integralBytes then throw (exceedsMaxInt64 s)
  let integralBytes := integralBytes + roundCarry
  if 2 ^ 63 - 1 < integralBytes then throw (exceedsMaxInt64 s)
  return Int64.ofNat integralBytes

theorem parseByteSize_eq (s : Bytes) :
    parseByteSize s = (do
      let (numStr, unitStr, dotIndex) ← splitByteSizeToken s
      let multiplier ← resolveByteMultiplier unitStr s
      let whole ← scanWhole s ((2 ^ 63 - 1) / multiplier) 0 (numberParts numStr dotIndex).1
      let fraction := scanFraction multiplier (numberParts numStr dotIndex).2
      roundSize s (whole * multiplier) fraction.1 fraction.2.1 fraction.2.2) := by
  rw [parseByteSize]
  refine bind_congr fun (numStr, unitStr, dotIndex) => bind_congr fun multiplier => ?_
  cases dotIndex <;> rfl

omit [CaseTable] in
/-- The tests pass exactly when the whole bytes are below the bound, or at it with
nothing left. -/
theorem roundSize_eq (s : Bytes) {wholeBytes fracCarry firstFracDigit : Nat} {hasNonzeroFrac : Bool}
    (small : wholeBytes ≤ 2 ^ 63 - 1) (half : 5 ≤ firstFracDigit → hasNonzeroFrac = true) :
    roundSize s wholeBytes fracCarry firstFracDigit hasNonzeroFrac =
      if wholeBytes + fracCarry < 2 ^ 63 - 1 ∨
          (wholeBytes + fracCarry = 2 ^ 63 - 1 ∧ hasNonzeroFrac = false) then
        .ok (Int64.ofNat (wholeBytes + fracCarry + if 5 ≤ firstFracDigit then 1 else 0))
      else .error (exceedsMaxInt64 s) := by
  have carry : (if 5 ≤ firstFracDigit then 1 else 0) ≤ 1 ∧
      (0 < (if 5 ≤ firstFracDigit then 1 else 0) → hasNonzeroFrac = true) := by
    split
    · exact ⟨Nat.le_refl 1, fun _ => half ‹_›⟩
    · exact ⟨Nat.zero_le 1, fun up => absurd up (Nat.lt_irrefl 0)⟩
  unfold roundSize
  dsimp only
  generalize (if 5 ≤ firstFracDigit then 1 else 0) = roundCarry at carry ⊢
  obtain ⟨atMostOne, left⟩ := carry
  by_cases exceeds : 2 ^ 63 - 1 - wholeBytes < fracCarry
  · rw [if_pos exceeds, if_neg (show ¬ (_ ∨ _) by omega)]
    rfl
  rw [if_neg exceeds]
  rcases Nat.lt_or_ge (wholeBytes + fracCarry) (2 ^ 63 - 1) with below | reached
  · rw [if_neg (by simp; omega), if_neg (by simp; omega), if_neg (by omega), if_pos (.inl below)]
    rfl
  have bound : wholeBytes + fracCarry = 2 ^ 63 - 1 := by omega
  cases hasNonzeroFrac with
  | false =>
    have none : roundCarry = 0 := by
      by_contra some
      cases left (by omega)
    rw [if_neg (by simp), if_neg (by simp [none]), if_neg (by omega), if_pos (.inr ⟨bound, rfl⟩)]
    rfl
  | true =>
    have refused : ¬ (wholeBytes + fracCarry < 2 ^ 63 - 1 ∨
        (wholeBytes + fracCarry = 2 ^ 63 - 1 ∧ true = false)) := by simp [bound]
    rw [if_pos (by simpa using bound), if_neg refused]
    rfl

/-- The parser on a text with a number and a unit in it, over the exact value. -/
theorem parseByteSize_of_number {whole frac : Bytes} (text : trimSpace s = num ++ rest)
    (number : Number num whole frac dot) (some_digit : whole ++ frac ≠ [])
    (known : ByteUnit (toLower (trimSpace rest)) multiplier) :
    parseByteSize s =
      if digitsValue whole * multiplier * 10 ^ frac.length + digitsValue frac * multiplier ≤
          (2 ^ 63 - 1) * 10 ^ frac.length then
        .ok (Int64.ofNat ((2 * (digitsValue whole * multiplier * 10 ^ frac.length +
          digitsValue frac * multiplier) + 10 ^ frac.length) / (2 * 10 ^ frac.length)))
      else .error (exceedsMaxInt64 s) := by
  have split := splitByteSizeToken_of_number text number some_digit known.numberEnds
  have unit := (resolveByteMultiplier_iff _ s multiplier).mpr known
  have positive : 0 < 10 ^ frac.length := by positivity
  have scanned := scanWhole_eq s number.whole_digits (Nat.zero_le ((2 ^ 63 - 1) / multiplier))
  rw [Nat.zero_mul, Nat.zero_add] at scanned
  rw [parseByteSize_eq, split]
  simp only [bind, Except.bind, unit, number.numberParts, scanned, scanFraction_eq]
  have within := Nat.le_div_iff_mul_le (x := digitsValue whole) (y := 2 ^ 63 - 1) known.bounds.1
  by_cases fits : digitsValue whole ≤ (2 ^ 63 - 1) / multiplier
  · have half : 5 ≤ 10 * (digitsValue frac * multiplier) / 10 ^ frac.length % 10 →
        decide (digitsValue frac * multiplier % 10 ^ frac.length ≠ 0) = true := by
      rw [half_iff _ positive, decide_eq_true_eq]
      omega
    rw [if_pos fits]
    dsimp only
    rw [roundSize_eq s (within.mp fits) half, rounded_eq _ _ positive]
    simp only [half_iff _ positive, fits_iff _ _ _ positive, decide_eq_false_iff_not, ne_eq, not_not]
  · have above : (2 ^ 63 - 1) * 10 ^ frac.length <
        digitsValue whole * multiplier * 10 ^ frac.length + digitsValue frac * multiplier := by
      have more : 2 ^ 63 - 1 < digitsValue whole * multiplier := Nat.lt_of_not_le fun le => fits (within.mpr le)
      exact Nat.lt_of_lt_of_le (Nat.mul_lt_mul_of_pos_right more positive) (Nat.le_add_right _ _)
    rw [if_neg fits, if_neg (Nat.not_le.mpr above)]

omit [CaseTable] in
/-- The tests, with the `uint64` operations between them. -/
theorem machineRound_eq (s : Bytes) {wholeBytes fracCarry : Nat} (firstFracDigit : Nat)
    (hasNonzeroFrac : Bool) (small : wholeBytes ≤ 2 ^ 63 - 1) (carry : fracCarry ≤ 2 ^ 48) :
    (do
      let remaining ← subU64 (2 ^ 63 - 1) wholeBytes
      Eval.guard (remaining < fracCarry) (exceedsMaxInt64 s)
      let integralBytes ← addU64 wholeBytes fracCarry
      Eval.guard (integralBytes = 2 ^ 63 - 1 && hasNonzeroFrac) (exceedsMaxInt64 s)
      let roundCarry := if 5 ≤ firstFracDigit then 1 else 0
      Eval.guard (0 < roundCarry && 2 ^ 63 - 1 ≤ integralBytes) (exceedsMaxInt64 s)
      let integralBytes ← addU64 integralBytes roundCarry
      Eval.guard (2 ^ 63 - 1 < integralBytes) (exceedsMaxInt64 s)
      return Int64.ofNat integralBytes) =
    Eval.ofExcept (roundSize s wholeBytes fracCarry firstFracDigit hasNonzeroFrac) := by
  have atMostOne : (if 5 ≤ firstFracDigit then 1 else 0) ≤ 1 := by split <;> omega
  unfold roundSize
  dsimp only
  generalize (if 5 ≤ firstFracDigit then 1 else 0) = roundCarry at atMostOne ⊢
  rw [subU64, if_pos (by omega), Eval.ok_bind, addU64, if_pos (by omega)]
  simp only [Eval.ok_bind]
  rw [addU64, if_pos (by omega)]
  simp only [Eval.ok_bind, Eval.guard, decide_eq_true_eq]
  split_ifs <;> rfl

/-- **No operation of the parser wraps.** -/
theorem machineByteSize_eq (s : Bytes) : machineByteSize s = Eval.ofExcept (parseByteSize s) := by
  rw [machineByteSize, parseByteSize_eq, Eval.ofExcept_bind]
  cases split : splitByteSizeToken s with
  | error e => rfl
  | ok token =>
    obtain ⟨num, unit, dot⟩ := token
    obtain ⟨rest, whole, frac, text, number, some_digit, ends, unit_eq⟩ := splitByteSizeToken_number split
    simp only [Eval.ofExcept_ok, Eval.ok_bind, Eval.ofExcept_bind]
    cases resolved : resolveByteMultiplier unit s with
    | error e => rfl
    | ok multiplier =>
      obtain ⟨positive, small⟩ := ((resolveByteMultiplier_iff unit s multiplier).mp resolved).bounds
      have bounded : (2 ^ 63 - 1) / multiplier < 2 ^ 63 :=
        Nat.lt_of_le_of_lt (Nat.div_le_self _ _) (by omega)
      simp only [Eval.ofExcept_ok, Eval.ok_bind, number.numberParts,
        machineWhole_eq s bounded number.whole_digits (Nat.zero_le _), machineFraction_eq small]
      rw [scanWhole_eq s number.whole_digits (Nat.zero_le _)]
      split
      · rename_i fits
        have product := (Nat.le_div_iff_mul_le positive).mp fits
        have carry := scanFraction_carry multiplier frac
        simp only [Eval.ofExcept_ok, Eval.ok_bind]
        rw [mulU64, if_pos (by omega), Eval.ok_bind, machineRound_eq s _ _ product (by omega)]
      · rfl

omit [CaseTable] in
/-- Rounding half up, as a division of naturals. -/
theorem floor_half (value : Nat) (positive : 0 < scale) :
    ⌊(value / scale : ℚ) + 1 / 2⌋ = ((2 * value + scale) / (2 * scale) : Nat) := by
  have nonzero : (scale : ℚ) ≠ 0 := by exact_mod_cast positive.ne'
  have common : (value / scale : ℚ) + 1 / 2 = ((2 * value + scale : Nat) : ℤ) / ((2 * scale : Nat) : ℚ) := by
    push_cast
    field_simp
  rw [common, Rat.floor_intCast_div_natCast]
  norm_cast

/-- A byte size within the bound is parsed to its value, rounded half up. -/
theorem ByteSize.parseByteSize {size : ℚ} (value : ByteSize s size) :
    ∃ bytes : Nat, (bytes : ℤ) = ⌊size + 1 / 2⌋ ∧
      Cgroup.parseByteSize s =
        if size ≤ 2 ^ 63 - 1 then .ok (Int64.ofNat bytes) else .error (exceedsMaxInt64 s) := by
  obtain ⟨num, rest, whole, frac, dot, multiplier, text, number, some_digit, known, rfl⟩ := value
  have positive : 0 < 10 ^ frac.length := by positivity
  have size_eq : ((digitsValue whole : ℚ) + digitsValue frac / 10 ^ frac.length) * multiplier =
      ((digitsValue whole * multiplier * 10 ^ frac.length + digitsValue frac * multiplier : Nat) : ℚ) /
        ((10 ^ frac.length : Nat) : ℚ) := by
    push_cast
    field_simp
  have scale : (0 : ℚ) < ((10 ^ frac.length : Nat) : ℚ) := by exact_mod_cast positive
  refine ⟨_, by rw [size_eq, floor_half _ positive], ?_⟩
  rw [parseByteSize_of_number text number some_digit known, size_eq]
  congr 1
  rw [div_le_iff₀ scale, eq_iff_iff]
  norm_num
  norm_cast

/-- **`ParseByteSize` is exact.**  No `uint64` operation wraps, the text is accepted
exactly when it is a number with a unit whose value is at most the largest `int64`, and
the result is that value rounded half up. -/
theorem parseByteSize_exact (s : Bytes) :
    machineByteSize s = Eval.ofExcept (parseByteSize s) ∧
      ((∃ r, parseByteSize s = .ok r) ↔ ∃ size, ByteSize s size ∧ size ≤ 2 ^ 63 - 1) ∧
      ∀ r size, parseByteSize s = .ok r → ByteSize s size → r.toInt = ⌊size + 1 / 2⌋ := by
  refine ⟨machineByteSize_eq s, ⟨?_, ?_⟩, ?_⟩
  · rintro ⟨r, parsed⟩
    obtain ⟨size, value⟩ : ∃ size, ByteSize s size := by
      rw [parseByteSize_eq] at parsed
      cases split : splitByteSizeToken s with
      | error e =>
        rw [split] at parsed
        cases parsed
      | ok token =>
        obtain ⟨num, unit, dot⟩ := token
        obtain ⟨rest, whole, frac, text, number, some_digit, -, rfl⟩ := splitByteSizeToken_number split
        rw [split] at parsed
        cases resolved : resolveByteMultiplier (toLower (trimSpace rest)) s with
        | error e =>
          simp only [bind, Except.bind, resolved] at parsed
          cases parsed
        | ok multiplier =>
          exact ⟨_, num, rest, whole, frac, dot, multiplier, text, number, some_digit,
            (resolveByteMultiplier_iff _ s multiplier).mp resolved, rfl⟩
    obtain ⟨bytes, -, result⟩ := value.parseByteSize
    refine ⟨size, value, ?_⟩
    by_contra above
    rw [result, if_neg above] at parsed
    cases parsed
  · rintro ⟨size, value, fits⟩
    obtain ⟨bytes, -, result⟩ := value.parseByteSize
    exact ⟨_, by rw [result, if_pos fits]⟩
  · intro r size parsed value
    obtain ⟨bytes, rounded, result⟩ := value.parseByteSize
    rw [result] at parsed
    split at parsed
    · rename_i fits
      cases parsed
      have small : ⌊size + 1 / 2⌋ < 2 ^ 63 := by
        rw [Int.floor_lt]
        push_cast
        linarith
      rw [← rounded] at small ⊢
      exact Int64.toInt_ofNat_of_lt (by exact_mod_cast small)
    · cases parsed

end

end Microfat.Cgroup
