/-
# Microfat.Theory.Strconv — numbers and pairs in text

`strings.Cut`, `strings.HasSuffix` and `strconv.ParseInt` in base ten, as far as an
environment needs them: entries are `key=value`, and a value may be a number.

* `cut_entry`: cutting a key without the separator off its entry gives it back;
* `parseInt_decimal`: a number that fits is read back from its digits;
* `parseInt_iff`: what the parser accepts, sign by sign;
* `zeroPadded_injective`: a padded number can be told from every other.
-/
import Microfat.Theory.Json

namespace Microfat.Theory

open Json

set_option autoImplicit false

/-- `strings.Cut` at a byte: what is before it, what is after it, and whether it is there. -/
def cut (sep : UInt8) : Bytes → Bytes × Bytes × Bool
  | [] => ([], [], false)
  | b :: rest =>
    if b = sep then ([], rest, true)
    else (b :: (cut sep rest).1, (cut sep rest).2.1, (cut sep rest).2.2)

theorem cut_entry {sep : UInt8} {key : Bytes} (free : sep ∉ key) (value : Bytes) :
    cut sep (key ++ sep :: value) = (key, value, true) := by
  induction key with
  | nil => simp [cut]
  | cons b key ih =>
    rw [List.mem_cons, not_or] at free
    obtain ⟨different, rest⟩ := free
    rw [List.cons_append, cut, if_neg (Ne.symm different), ih rest]

/-- A cut that found the separator took the entry apart. -/
theorem cut_found {sep : UInt8} {entry key value : Bytes} (found : cut sep entry = (key, value, true)) :
    entry = key ++ sep :: value ∧ sep ∉ key := by
  induction entry generalizing key with
  | nil => cases found
  | cons b rest ih =>
    rw [cut] at found
    split at found
    · rename_i same
      cases found
      exact ⟨by rw [same]; rfl, by simp⟩
    · rename_i different
      obtain ⟨rfl, rest'⟩ := Prod.mk.inj found
      obtain ⟨rfl, there⟩ := Prod.mk.inj rest'
      obtain ⟨whole, free⟩ := ih (Prod.ext rfl (Prod.ext rfl there))
      refine ⟨congrArg (b :: ·) whole, ?_⟩
      rw [List.mem_cons, not_or]
      exact ⟨Ne.symm different, free⟩

/-- `strings.HasSuffix`. -/
def hasSuffix (s suffix : Bytes) : Bool := suffix.isSuffixOf s

/-- `strings.TrimSuffix`. -/
def trimSuffix (s suffix : Bytes) : Bytes :=
  if hasSuffix s suffix then s.take (s.length - suffix.length) else s

@[simp] theorem hasSuffix_append (s suffix : Bytes) : hasSuffix (s ++ suffix) suffix = true :=
  List.isSuffixOf_iff_suffix.mpr (List.suffix_append s suffix)

@[simp] theorem trimSuffix_append (s suffix : Bytes) : trimSuffix (s ++ suffix) suffix = s := by
  rw [trimSuffix, if_pos (hasSuffix_append s suffix), List.length_append, Nat.add_sub_cancel, List.take_left]

/-- The fields of the rest of a text, after `field`. -/
def fieldsFrom : Nat → Bytes → Bytes → List Bytes
  | 0, field, _ => if field = [] then [] else [field]
  | fuel + 1, field, s =>
    let (r, width) := decodeRune s
    if width = 0 then (if field = [] then [] else [field])
    else if isSpace r then (if field = [] then [] else [field]) ++ fieldsFrom fuel [] (s.drop width)
    else fieldsFrom fuel (field ++ s.take width) (s.drop width)

/-- `strings.Fields`. -/
def fields (s : Bytes) : List Bytes := fieldsFrom s.length [] s

/-- The value of a non-empty text of digits. -/
def parseDigits (s : Bytes) : Option Nat :=
  if s = [] || !s.all isDigit then none
  else some (Nat.ofDigits 10 (s.reverse.map fun b => b.toNat - 48))

/-- `strconv.ParseInt(s, 10, 64)`: an optional sign, digits, and the range of `int64`. -/
def parseInt (s : Bytes) : Option Int :=
  match s with
  | [] => none
  | b :: rest =>
    let (negative, digits) := if b = 45 then (true, rest) else if b = 43 then (false, rest) else (false, s)
    match parseDigits digits with
    | none => none
    | some n =>
      if negative then (if n ≤ 2 ^ 63 then some (-n) else none)
      else if n < 2 ^ 63 then some n else none

/-- The number a text of digits stands for. -/
def digitsValue (s : Bytes) : Nat := Nat.ofDigits 10 (s.reverse.map fun b => b.toNat - 48)

@[simp] theorem digitsValue_nil : digitsValue [] = 0 := rfl

theorem digitsValue_append (s t : Bytes) :
    digitsValue (s ++ t) = digitsValue s * 10 ^ t.length + digitsValue t := by
  rw [digitsValue, List.reverse_append, List.map_append, Nat.ofDigits_append, List.length_map,
    List.length_reverse, Nat.add_comm, Nat.mul_comm]
  rfl

theorem digitsValue_single (b : UInt8) : digitsValue [b] = b.toNat - 48 := by
  simp [digitsValue]

theorem digitsValue_cons (b : UInt8) (s : Bytes) :
    digitsValue (b :: s) = (b.toNat - 48) * 10 ^ s.length + digitsValue s := by
  rw [← List.singleton_append, digitsValue_append, digitsValue_single]

theorem digit_le {b : UInt8} (digit : isDigit b = true) : b.toNat - 48 ≤ 9 := by
  simp only [isDigit, Bool.and_eq_true, decide_eq_true_eq] at digit
  omega

theorem parseDigits_iff {s : Bytes} {n : Nat} :
    parseDigits s = some n ↔ s ≠ [] ∧ (∀ b ∈ s, isDigit b = true) ∧ n = digitsValue s := by
  rw [parseDigits]
  split
  · rename_i bad
    refine iff_of_false nofun ?_
    rintro ⟨nonempty, digits, -⟩
    rw [List.all_eq_true.mpr digits] at bad
    simp [nonempty] at bad
  · rename_i good
    have shape : s ≠ [] ∧ ∀ b ∈ s, isDigit b = true := by simpa using good
    rw [Option.some.injEq]
    exact ⟨fun same => ⟨shape.1, shape.2, same.symm⟩, fun all => all.2.2.symm⟩

/-- A positive number is accepted without a sign or behind a plus. -/
theorem parseInt_iff {s : Bytes} {n : Int} (positive : 0 < n) :
    parseInt s = some n ↔ n < 2 ^ 63 ∧
      (parseDigits s = some n.toNat ∨ ∃ digits, s = 43 :: digits ∧ parseDigits digits = some n.toNat) := by
  have unsigned : ∀ digits, (match parseDigits digits with
      | none => none
      | some m => if m < 2 ^ 63 then some (m : Int) else none) = some n ↔
        n < 2 ^ 63 ∧ parseDigits digits = some n.toNat := by
    intro digits
    cases parseDigits digits with
    | none => simp
    | some m =>
      dsimp only
      split
      · simp only [Option.some.injEq]
        omega
      · simp only [Option.some.injEq, reduceCtorEq, false_iff]
        omega
  cases s with
  | nil => simp [parseInt, parseDigits]
  | cons b rest =>
    have noDigit : ∀ c : UInt8, isDigit c = false → ∀ m, parseDigits (c :: rest) ≠ some m := by
      intro c other m parsed
      have := (parseDigits_iff.mp parsed).2.1 c List.mem_cons_self
      rw [other] at this
      cases this
    rw [parseInt]
    by_cases minus : b = 45
    · subst minus
      refine iff_of_false ?_ ?_
      · simp only [if_true]
        split
        · exact (Option.some_ne_none n).symm
        · split
          · rw [Option.some.injEq]
            omega
          · exact (Option.some_ne_none n).symm
      · rintro ⟨-, plain | ⟨digits, shape, -⟩⟩
        · exact noDigit 45 (by decide) _ plain
        · exact absurd (List.cons.inj shape).1 (by decide)
    · by_cases plus : b = 43
      · subst plus
        simp only [if_neg minus, if_true, Bool.false_eq_true, if_false]
        rw [unsigned rest]
        refine and_congr_right fun _ => ⟨fun parsed => .inr ⟨rest, rfl, parsed⟩, ?_⟩
        rintro (plain | ⟨digits, shape, parsed⟩)
        · exact absurd plain (noDigit 43 (by decide) _)
        · rwa [(List.cons.inj shape).2]
      · simp only [if_neg minus, if_neg plus, Bool.false_eq_true, if_false]
        rw [unsigned (b :: rest)]
        refine and_congr_right fun _ => ⟨.inl, ?_⟩
        rintro (plain | ⟨digits, shape, -⟩)
        · exact plain
        · exact absurd (List.cons.inj shape).1 plus

theorem parseDigits_decimal (n : Nat) : parseDigits (decimal n) = some n :=
  parseDigits_iff.mpr ⟨(decimal_head n).1, decimal_digits n, (decimal_value n).symm⟩

theorem parseInt_decimal {n : Nat} (fits : n < 2 ^ 63) : parseInt (decimal n) = some (n : Int) := by
  rcases Nat.eq_zero_or_pos n with rfl | positive
  · decide
  · refine (parseInt_iff (by omega)).mpr ⟨by omega, .inl ?_⟩
    rw [Int.toNat_natCast]
    exact parseDigits_decimal n

/-! ## Numerals -/

/-- A decimal numeral without a leading zero. -/
structure Numeral (s : Bytes) : Prop where
  nonempty : s ≠ []
  digits : ∀ b ∈ s, isDigit b = true
  lead : 1 < s.length → s.head? ≠ some 48

theorem digitsValue_lt {s : Bytes} (digits : ∀ b ∈ s, isDigit b = true) : digitsValue s < 10 ^ s.length := by
  induction s with
  | nil => decide
  | cons b rest ih =>
    have first := digit_le (digits b List.mem_cons_self)
    have others := ih fun c mem => digits c (List.mem_cons_of_mem _ mem)
    rw [digitsValue_cons, List.length_cons, Nat.pow_succ]
    nlinarith [Nat.mul_le_mul_right (10 ^ rest.length) first]

/-- A numeral of more than one digit has a value of full length. -/
theorem Numeral.le_digitsValue {s : Bytes} (h : Numeral s) (long : 1 < s.length) :
    10 ^ (s.length - 1) ≤ digitsValue s := by
  obtain ⟨b, rest, rfl⟩ := List.exists_cons_of_ne_nil h.nonempty
  have digit := h.digits b List.mem_cons_self
  have notZero : b ≠ 48 := fun zero => h.lead long (by rw [zero]; rfl)
  have lead : 1 ≤ b.toNat - 48 := by
    simp only [isDigit, Bool.and_eq_true, decide_eq_true_eq] at digit
    have other : b.toNat ≠ 48 := fun same => notZero (UInt8.toNat_inj.mp same)
    omega
  rw [digitsValue_cons, List.length_cons, Nat.add_sub_cancel]
  calc 10 ^ rest.length = 1 * 10 ^ rest.length := (Nat.one_mul _).symm
    _ ≤ (b.toNat - 48) * 10 ^ rest.length := Nat.mul_le_mul_right _ lead
    _ ≤ _ := Nat.le_add_right _ _

/-! ## Padding -/

/-- A number of at least that many digits, as `%06d` prints one for six. -/
def zeroPadded (width n : Nat) : Bytes := List.replicate (width - (decimal n).length) 48 ++ decimal n

theorem digitsValue_zeroPadded (width n : Nat) : digitsValue (zeroPadded width n) = n := by
  have zeros : ∀ k, digitsValue (List.replicate k 48) = 0 := by
    intro k
    induction k with
    | zero => rfl
    | succ k ih => rw [List.replicate_succ, digitsValue_cons, ih]; simp
  rw [zeroPadded, digitsValue_append, zeros, Nat.zero_mul, Nat.zero_add]
  exact decimal_value n

theorem zeroPadded_injective (width : Nat) : Function.Injective (zeroPadded width) := by
  intro m n same
  rw [← digitsValue_zeroPadded width m, same, digitsValue_zeroPadded]

end Microfat.Theory
