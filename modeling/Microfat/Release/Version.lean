/-
# Microfat.Release.Version — stable versions and their order

A release version is three decimal numerals without leading zeros, of any length.  They are
compared as texts: a longer numeral is the larger one, and numerals of one length are
compared byte by byte.

* `compareParts_numerals`: on numerals this is the order of the numbers;
* `compareVersions_numbers`: on versions it is the lexicographic order of the three numbers.
-/
import Microfat.Install.Types
import Microfat.Theory.Strconv

namespace Microfat.Release

open Theory Json Install

set_option autoImplicit false

def maxVersionLength : Nat := 64

/-- `strings.Compare`. -/
def compareStrings : Bytes → Bytes → Int
  | [], [] => 0
  | [], _ :: _ => -1
  | _ :: _, [] => 1
  | x :: xs, y :: ys => if x < y then -1 else if y < x then 1 else compareStrings xs ys

/-- The loop of `CompareVersions` over the parts of the first version; at the end the
numbers of parts are compared. -/
def compareParts : List Bytes → List Bytes → Int
  | [], right => 0 - right.length
  | _ :: _, [] => 1
  | l :: left, r :: right =>
    if l.length ≠ r.length then l.length - r.length
    else if compareStrings l r ≠ 0 then compareStrings l r
    else compareParts left right

def compareVersions (a b : Bytes) : Int := compareParts (a.splitOn 46) (b.splitOn 46)

/-- `ParseVersion`; `versionSyntax` is the pattern of the installer. -/
def parseVersion (value : Bytes) : Except Err Bytes :=
  let version := trimPrefix value (lit "v")
  if maxVersionLength < version.length || !isVersion version then
    .error (.new "expected a stable version such as 0.3.0")
  else if compareVersions version (lit "0.2.3") < 0 then
    .error (.new "release signing policy is only established for v0.2.3 and later")
  else .ok version

/-! ## Numerals -/

theorem numeral_iff {s : Bytes} : isNumeral s = true ↔ Numeral s := by
  rw [isNumeral, Bool.or_eq_true, Bool.and_eq_true, Bool.and_eq_true, beq_iff_eq, bne_iff_ne, bne_iff_ne,
    List.all_eq_true]
  constructor
  · rintro (rfl | ⟨⟨nonempty, digits⟩, lead⟩)
    · refine ⟨by decide, fun b mem => ?_, fun long => absurd long (by decide)⟩
      rw [List.mem_singleton.mp mem]
      decide
    · exact ⟨nonempty, digits, fun _ => lead⟩
  · intro h
    by_cases single : s = lit "0"
    · exact .inl single
    · refine .inr ⟨⟨h.nonempty, h.digits⟩, ?_⟩
      intro zero
      rcases Nat.lt_or_ge 1 s.length with long | short
      · exact h.lead long zero
      · obtain ⟨b, rest, rfl⟩ := List.exists_cons_of_ne_nil h.nonempty
        obtain rfl : rest = [] := List.eq_nil_of_length_eq_zero (by simpa using short)
        rw [List.head?_cons, Option.some.injEq] at zero
        exact single (by rw [zero]; rfl)

/-- Digits of one length are in the order of their values.  Induction from the left: the
first difference decides, whatever follows. -/
theorem compareStrings_digits {xs ys : Bytes} (digits : ∀ b ∈ xs, isDigit b = true)
    (digits' : ∀ b ∈ ys, isDigit b = true) (same : xs.length = ys.length) :
    (compareStrings xs ys < 0 ↔ digitsValue xs < digitsValue ys) ∧
      (compareStrings xs ys = 0 ↔ digitsValue xs = digitsValue ys) := by
  induction xs generalizing ys with
  | nil =>
    obtain rfl : ys = [] := List.eq_nil_of_length_eq_zero same.symm
    simp [compareStrings]
  | cons x xs ih =>
    cases ys with
    | nil => cases same
    | cons y ys =>
      obtain ⟨first, rest⟩ := List.forall_mem_cons.mp digits
      obtain ⟨first', rest'⟩ := List.forall_mem_cons.mp digits'
      have lengths : xs.length = ys.length := Nat.succ_injective same
      have low := digitsValue_lt rest
      have low' := digitsValue_lt rest'
      rw [lengths] at low
      simp only [isDigit, Bool.and_eq_true, decide_eq_true_eq] at first first'
      rw [compareStrings, digitsValue_cons, digitsValue_cons, lengths]
      -- a smaller first digit outweighs everything that follows it
      have outweighs : ∀ {a b u v : Nat}, 48 ≤ a → a < b → u < 10 ^ ys.length →
          (a - 48) * 10 ^ ys.length + u < (b - 48) * 10 ^ ys.length + v := by
        intro a b u v digit smaller tail
        have next : (a - 48 + 1) * 10 ^ ys.length ≤ (b - 48) * 10 ^ ys.length :=
          Nat.mul_le_mul_right _ (by omega)
        rw [Nat.succ_mul] at next
        omega
      split
      · rename_i smaller
        have less := outweighs (v := digitsValue ys) first.1 (UInt8.lt_iff_toNat_lt.mp smaller) low
        constructor
        · simp [less]
        · simp [less.ne]
      · split
        · rename_i larger
          have more := outweighs (v := digitsValue xs) first'.1 (UInt8.lt_iff_toNat_lt.mp larger) low'
          constructor
          · simp [more.le]
          · simp [more.ne']
        · rename_i notSmaller notLarger
          obtain rfl : x = y := by
            rw [UInt8.lt_iff_toNat_lt] at notSmaller notLarger
            exact UInt8.toNat_inj.mp (by omega)
          rw [Nat.add_lt_add_iff_left, Nat.add_left_cancel_iff]
          exact ih rest rest' lengths

/-- **Parts that are numerals are in the lexicographic order of their numbers.** -/
theorem compareParts_numerals {left right : List Bytes} (numerals : ∀ s ∈ left, Numeral s)
    (numerals' : ∀ s ∈ right, Numeral s) (same : left.length = right.length) :
    (compareParts left right < 0 ↔ left.map digitsValue < right.map digitsValue) ∧
      (compareParts left right = 0 ↔ left.map digitsValue = right.map digitsValue) := by
  induction left generalizing right with
  | nil =>
    obtain rfl : right = [] := List.eq_nil_of_length_eq_zero same.symm
    simp [compareParts]
  | cons l left ih =>
    cases right with
    | nil => cases same
    | cons r right =>
      obtain ⟨first, numerals⟩ := List.forall_mem_cons.mp numerals
      obtain ⟨first', numerals'⟩ := List.forall_mem_cons.mp numerals'
      have longer : ∀ {s t : Bytes}, Numeral s → Numeral t → s.length < t.length → digitsValue s < digitsValue t := by
        intro s t numeral numeral' less
        have some := List.length_pos_iff.mpr numeral.nonempty
        calc digitsValue s < 10 ^ s.length := digitsValue_lt numeral.digits
          _ ≤ 10 ^ (t.length - 1) := Nat.pow_le_pow_right (by decide) (by omega)
          _ ≤ digitsValue t := numeral'.le_digitsValue (by omega)
      rw [compareParts, List.map_cons, List.map_cons, List.cons_lt_cons_iff, List.cons.injEq]
      split
      · rename_i lengths
        rcases Nat.lt_or_gt_of_ne lengths with shorter | longer'
        · have less := longer first first' shorter
          constructor
          · simp only [less, true_or, iff_true]
            omega
          · simp only [less.ne, false_and, iff_false]
            omega
        · have more := longer first' first longer'
          constructor
          · simp only [more.not_gt, more.ne', false_and, or_self, iff_false]
            omega
          · simp only [more.ne', false_and, iff_false]
            omega
      · rename_i lengths
        obtain ⟨less, equal⟩ := compareStrings_digits first.digits first'.digits (not_not.mp lengths)
        split
        · rename_i different
          have unequal := mt equal.mpr different
          constructor
          · simp only [less, unequal, false_and, or_false]
          · simp only [different, unequal, false_and]
        · rename_i equalTexts
          have value := equal.mp (not_not.mp equalTexts)
          simp only [value, lt_irrefl, false_or, true_and]
          exact ih numerals numerals' (Nat.succ_injective same)

/-- The numbers of a version. -/
def numbers (version : Bytes) : List Nat := (version.splitOn 46).map digitsValue

theorem isVersion_parts {version : Bytes} (valid : isVersion version = true) :
    (∀ s ∈ version.splitOn 46, Numeral s) ∧ (version.splitOn 46).length = 3 := by
  rw [isVersion] at valid
  split at valid
  · rename_i a b c parts
    rw [Bool.and_eq_true, Bool.and_eq_true, numeral_iff, numeral_iff, numeral_iff] at valid
    rw [parts]
    simp [valid]
  · cases valid

/-- **Versions are compared by their numbers**, of any length. -/
theorem compareVersions_numbers {a b : Bytes} (valid : isVersion a = true) (valid' : isVersion b = true) :
    (compareVersions a b < 0 ↔ numbers a < numbers b) ∧ (compareVersions a b = 0 ↔ numbers a = numbers b) ∧
      (0 < compareVersions a b ↔ numbers b < numbers a) := by
  obtain ⟨numerals, length⟩ := isVersion_parts valid
  obtain ⟨numerals', length'⟩ := isVersion_parts valid'
  obtain ⟨less, equal⟩ := compareParts_numerals numerals numerals' (length.trans length'.symm)
  refine ⟨less, equal, ?_⟩
  change 0 < compareParts _ _ ↔ List.map _ _ < List.map _ _
  constructor
  · intro positive
    rcases lt_trichotomy ((b.splitOn 46).map digitsValue) ((a.splitOn 46).map digitsValue) with more | same | fewer
    · exact more
    · have := equal.mpr same.symm
      omega
    · have := less.mpr fewer
      omega
  · intro more
    have notLess := mt less.mp more.not_gt
    have notEqual := mt equal.mp more.ne'
    omega

end Microfat.Release
