/-
# Microfat.Theory.Json — the byte-level grammar of JSON texts

What a JSON reader makes of a text of strings, integers, arrays and objects, with
blanks, escapes and surrogate pairs; strings are taken byte for byte, so malformed
UTF-8 passes through.  Booleans, fractions and `null` are not read.

`Written` is a text together with the value it is read as, in front of whatever may
follow a value.  `Written.string`, `Written.int`, `Written.array` and
`Written.object` build it up, so that what a hand-written serialiser produces is read
back as soon as its text is one of these (`Written.read_text`).
-/
import Microfat.Theory.Text

namespace Microfat.Theory.Json

open Theory

set_option autoImplicit false

inductive Value where
  | int (v : Int)
  | string (s : Bytes)
  | array (items : List Value)
  | object (members : List (Bytes × Value))

/-! ## Writing -/

def quoteMark : UInt8 := 34
def backslash : UInt8 := 92
def comma : UInt8 := 44
def colon : UInt8 := 58
def openBracket : UInt8 := 91
def closeBracket : UInt8 := 93
def openBrace : UInt8 := 123
def closeBrace : UInt8 := 125
def letterU : UInt8 := 117

/-- The two-character escapes a string is written with, as the letter and what it
stands for. -/
def shortEscapes : List (UInt8 × UInt8) :=
  [(34, 34), (92, 92), (98, 8), (102, 12), (110, 10), (114, 13), (116, 9)]

/-- One byte of a string literal: quotes, backslashes and control characters are
escaped. -/
def escapeByte (b : UInt8) : Bytes :=
  match shortEscapes.find? fun e => e.2 = b with
  | some (letter, _) => [backslash, letter]
  | none =>
    if b.toNat < 0x20 then
      [backslash, letterU, 48, 48, hexDigit (b.toNat / 16), hexDigit (b.toNat % 16)]
    else [b]

/-- A string literal. -/
def quote (s : Bytes) : Bytes := quoteMark :: (s.flatMap escapeByte ++ [quoteMark])

def isDigit (b : UInt8) : Bool := 48 ≤ b.toNat && b.toNat ≤ 57

def decimal (n : Nat) : Bytes :=
  if n = 0 then [48] else (Nat.digits 10 n).reverse.map fun d => UInt8.ofNat (48 + d)

def decimalInt (v : Int) : Bytes := if v < 0 then 45 :: decimal v.natAbs else decimal v.natAbs

/-- Comma-separated texts. -/
def joined (first : Bytes) (others : List Bytes) : Bytes := first ++ others.flatMap (comma :: ·)

/-- A member of an object. -/
def memberText (name text : Bytes) : Bytes := quote name ++ colon :: text

/-! ## Reading -/

def isBlank (b : UInt8) : Bool := b = 32 || b = 9 || b = 10 || b = 13

def skipBlanks (s : Bytes) : Bytes := s.dropWhile isBlank

def hexValue (b : UInt8) : Option Nat :=
  if between b 48 57 then some (b.toNat - 48)
  else if between b 97 102 then some (b.toNat - 87)
  else if between b 65 70 then some (b.toNat - 55)
  else none

/-- The four digits after `\u`. -/
def hexRune (a b c d : UInt8) : Option Nat := do
  let a ← hexValue a
  let b ← hexValue b
  let c ← hexValue c
  let d ← hexValue d
  return ((a * 16 + b) * 16 + c) * 16 + d

/-- What a one-letter escape stands for; besides those that are written there is `\/`. -/
def unescape (letter : UInt8) : Option UInt8 :=
  if letter = slash then some slash else (shortEscapes.find? fun e => e.1 = letter).map Prod.snd

/-- The rest of a string literal after its opening quote. -/
def readString : Bytes → Option (Bytes × Bytes)
  | [] => none
  | b :: rest =>
    if b = quoteMark then some ([], rest)
    else if b = backslash then
      match rest with
      | [] => none
      | letter :: rest =>
        match unescape letter with
        | some byte => (readString rest).map fun (s, after) => (byte :: s, after)
        | none =>
          if letter = letterU then
            match rest with
            | a :: b :: c :: d :: rest =>
              match hexRune a b c d with
              | none => none
              | some r =>
                if 0xD800 ≤ r && r ≤ 0xDBFF then
                  -- the second half of a pair has to follow
                  match rest with
                  | b1 :: b2 :: a :: b :: c :: d :: rest =>
                    match hexRune a b c d with
                    | none => none
                    | some low =>
                      if b1 = backslash && b2 = letterU && 0xDC00 ≤ low && low ≤ 0xDFFF
                      then (readString rest).map fun (s, after) =>
                        (encodeRune (0x10000 + (r - 0xD800) * 1024 + (low - 0xDC00)) ++ s,
                          after)
                      else none
                  | _ => none
                else if 0xDC00 ≤ r && r ≤ 0xDFFF then none
                else (readString rest).map fun (s, after) => (encodeRune r ++ s, after)
            | _ => none
          else none
    else if b.toNat < 0x20 then none
    else (readString rest).map fun (s, after) => (b :: s, after)

/-- Digits without leading zeros. -/
def readNat (s : Bytes) : Option (Nat × Bytes) :=
  let digits := s.takeWhile isDigit
  if digits = [] ∨ (1 < digits.length ∧ digits.head? = some 48) then none
  else some (Nat.ofDigits 10 (digits.reverse.map fun b => b.toNat - 48), s.dropWhile isDigit)

def readInt (s : Bytes) : Option (Int × Bytes) :=
  if s.head? = some 45 then (readNat s.tail).map fun (n, rest) => (-(n : Int), rest)
  else (readNat s).map fun (n, rest) => ((n : Int), rest)

/-- Items with commas between them, up to the closing byte. -/
def sepBy {α : Type} (item : Bytes → Option (α × Bytes)) (close : UInt8) :
    Nat → Bytes → Option (List α × Bytes)
  | 0, _ => none
  | fuel + 1, s =>
    match item s with
    | none => none
    | some (a, rest) =>
      match skipBlanks rest with
      | [] => none
      | b :: rest =>
        if b = close then some ([a], rest)
        else if b = comma then (sepBy item close fuel rest).map fun (as, after) => (a :: as, after)
        else none

/-- The inside of an array or an object after its opening byte. -/
def listed {α : Type} (item : Bytes → Option (α × Bytes)) (close : UInt8) (fuel : Nat) (s : Bytes) :
    Option (List α × Bytes) :=
  if (skipBlanks s).head? = some close then some ([], (skipBlanks s).tail) else sepBy item close fuel s

/-- A name, a colon and a value. -/
def member (value : Bytes → Option (Value × Bytes)) (s : Bytes) : Option ((Bytes × Value) × Bytes) :=
  match skipBlanks s with
  | [] => none
  | b :: rest =>
    if b = quoteMark then
      match readString rest with
      | none => none
      | some (name, rest) =>
        match skipBlanks rest with
        | [] => none
        | b :: rest =>
          if b = colon then (value rest).map fun (v, after) => ((name, v), after) else none
    else none

/-- One value, with `fuel` levels of nesting to spare. -/
def readValue : Nat → Bytes → Option (Value × Bytes)
  | 0, _ => none
  | fuel + 1, s =>
    match skipBlanks s with
    | [] => none
    | b :: rest =>
      if b = quoteMark then (readString rest).map fun (t, after) => (.string t, after)
      else if b = openBracket then
        (listed (readValue fuel) closeBracket fuel rest).map fun (vs, after) => (.array vs, after)
      else if b = openBrace then
        (listed (member (readValue fuel)) closeBrace fuel rest).map fun (ms, after) =>
          (.object ms, after)
      else (readInt (b :: rest)).map fun (v, after) => (.int v, after)

/-- A whole text: one value and nothing after it. -/
def read (s : Bytes) : Option Value :=
  match readValue s.length s with
  | some (v, rest) => if skipBlanks rest = [] then some v else none
  | none => none

/-- No double quote outside an escape, and no backslash without the byte it escapes. -/
def wellEscaped : Bytes → Bool
  | [] => true
  | b :: rest =>
    if b = backslash then
      match rest with
      | [] => false
      | _ :: rest => wellEscaped rest
    else b != quoteMark && wellEscaped rest

/-! ## Reading back what was written -/

theorem hexRune_control : ∀ b : UInt8, b.toNat < 0x20 →
    hexRune 48 48 (hexDigit (b.toNat / 16)) (hexDigit (b.toNat % 16)) = some b.toNat := by
  decide +kernel

theorem escapeByte_cases : ∀ b : UInt8,
    (∃ letter, escapeByte b = [backslash, letter] ∧ unescape letter = some b) ∨
    (b.toNat < 0x20 ∧ escapeByte b =
      [backslash, letterU, 48, 48, hexDigit (b.toNat / 16), hexDigit (b.toNat % 16)]) ∨
    (¬ b.toNat < 0x20 ∧ b ≠ quoteMark ∧ b ≠ backslash ∧ escapeByte b = [b]) := by
  intro b
  by_cases short : b = 34 ∨ b = 92 ∨ b = 8 ∨ b = 12 ∨ b = 10 ∨ b = 13 ∨ b = 9
  · left
    rcases short with h | h | h | h | h | h | h <;> subst h
    · exact ⟨34, by decide⟩
    · exact ⟨92, by decide⟩
    · exact ⟨98, by decide⟩
    · exact ⟨102, by decide⟩
    · exact ⟨110, by decide⟩
    · exact ⟨114, by decide⟩
    · exact ⟨116, by decide⟩
  · simp only [not_or] at short
    obtain ⟨h1, h2, h3, h4, h5, h6, h7⟩ := short
    have long : shortEscapes.find? (fun e => decide (e.2 = b)) = none := by
      simp [shortEscapes, Ne.symm h1, Ne.symm h2, Ne.symm h3, Ne.symm h4, Ne.symm h5, Ne.symm h6,
        Ne.symm h7]
    right
    by_cases control : b.toNat < 0x20
    · exact Or.inl ⟨control, by simp [escapeByte, long, control]⟩
    · exact Or.inr ⟨control, h1, h2, by simp [escapeByte, long, control]⟩

theorem readString_escapeByte (b : UInt8) (rest : Bytes) :
    readString (escapeByte b ++ rest) = (readString rest).map fun r => (b :: r.1, r.2) := by
  have notQuote : backslash ≠ quoteMark := by decide
  rcases escapeByte_cases b with ⟨letter, written, means⟩ | ⟨control, written⟩ | ⟨plain, h1, h2, written⟩
  · rw [written, List.cons_append, readString.eq_def]
    simp [notQuote, means]
  · have notShort : unescape letterU = none := by decide
    have low : ¬ (0xD800 ≤ b.toNat && b.toNat ≤ 0xDBFF) = true := by simp; omega
    have low' : ¬ (0xDC00 ≤ b.toNat && b.toNat ≤ 0xDFFF) = true := by simp; omega
    have ascii : encodeRune b.toNat = [b] := by
      rw [encodeRune, if_pos (by omega)]
      simp
    rw [written, List.cons_append, readString.eq_def]
    simp only [List.cons_append, List.nil_append, if_neg notQuote, if_true, notShort,
      hexRune_control b control, if_neg low, if_neg low', ascii]
  · rw [written, List.cons_append, readString.eq_def]
    simp only [if_neg h1, if_neg h2, if_neg plain, List.nil_append]

theorem readString_quote (s rest : Bytes) :
    readString (s.flatMap escapeByte ++ quoteMark :: rest) = some (s, rest) := by
  induction s with
  | nil => rw [List.flatMap_nil, List.nil_append, readString.eq_def]; simp
  | cons b s ih => rw [List.flatMap_cons, List.append_assoc, readString_escapeByte, ih]; rfl

theorem wellEscaped_plain {b : UInt8} (quote : b ≠ quoteMark) (escape : b ≠ backslash) (rest : Bytes) :
    wellEscaped (b :: rest) = wellEscaped rest := by
  rw [wellEscaped.eq_def]
  simp [quote, escape]

theorem wellEscaped_escape (b : UInt8) (rest : Bytes) :
    wellEscaped (backslash :: b :: rest) = wellEscaped rest := by
  rw [wellEscaped.eq_def]
  simp

theorem hexDigit_plain {d : Nat} (small : d < 16) :
    hexDigit d ≠ backslash ∧ hexDigit d ≠ quoteMark := by
  have table : ∀ d : Fin 16, hexDigit d ≠ backslash ∧ hexDigit d ≠ quoteMark := by
    decide
  exact table ⟨d, small⟩

theorem wellEscaped_escapeByte (b : UInt8) (rest : Bytes) :
    wellEscaped (escapeByte b ++ rest) = wellEscaped rest := by
  rcases escapeByte_cases b with ⟨letter, written, -⟩ | ⟨control, written⟩ | ⟨-, h1, h2, written⟩
  · rw [written]
    exact wellEscaped_escape letter rest
  · have zero : (48 : UInt8) ≠ backslash ∧ (48 : UInt8) ≠ quoteMark := by decide
    have high := hexDigit_plain (show b.toNat / 16 < 16 by omega)
    have low := hexDigit_plain (show b.toNat % 16 < 16 by omega)
    rw [written]
    show wellEscaped (backslash :: letterU :: 48 :: 48 :: _ :: _ :: rest) = _
    rw [wellEscaped_escape, wellEscaped_plain zero.2 zero.1, wellEscaped_plain zero.2 zero.1,
      wellEscaped_plain high.2 high.1, wellEscaped_plain low.2 low.1]
  · rw [written]
    exact wellEscaped_plain h1 h2 rest

theorem wellEscaped_escaped (s : Bytes) : wellEscaped (s.flatMap escapeByte) = true := by
  induction s with
  | nil => rfl
  | cons b s ih => rw [List.flatMap_cons, wellEscaped_escapeByte, ih]

theorem escapeByte_printable : ∀ b : UInt8, (escapeByte b).all (0x20 ≤ ·.toNat) = true := by
  decide +kernel

/-- What is written for a string has no control character. -/
theorem escaped_printable (s : Bytes) : ∀ c ∈ s.flatMap escapeByte, 0x20 ≤ c.toNat := by
  intro c mem
  obtain ⟨b, -, mem⟩ := List.mem_flatMap.mp mem
  exact of_decide_eq_true (List.all_eq_true.mp (escapeByte_printable b) c mem)

theorem isDigit_digit {d : Nat} (small : d < 10) :
    isDigit (UInt8.ofNat (48 + d)) = true ∧ (UInt8.ofNat (48 + d)).toNat - 48 = d := by
  have value : (UInt8.ofNat (48 + d)).toNat = 48 + d := by
    rw [UInt8.toNat_ofNat']
    omega
  refine ⟨?_, by omega⟩
  rw [isDigit, value]
  simp
  omega

/-- The rest of a text that cannot continue a number. -/
def Ends (rest : Bytes) : Prop := ∀ b ∈ rest.head?, isDigit b = false

theorem decimal_digits (n : Nat) : ∀ b ∈ decimal n, isDigit b = true := by
  intro b mem
  rw [decimal] at mem
  split at mem
  · rw [List.mem_singleton.mp mem]
    decide
  · obtain ⟨d, digit, rfl⟩ := List.mem_map.mp mem
    exact (isDigit_digit (Nat.digits_lt_base (by omega) (List.mem_reverse.mp digit))).1

theorem decimal_value (n : Nat) :
    Nat.ofDigits 10 ((decimal n).reverse.map fun b => b.toNat - 48) = n := by
  rw [decimal]
  split
  · next zero => rw [zero]; decide
  · have back : ((Nat.digits 10 n).map fun d => (UInt8.ofNat (48 + d)).toNat - 48)
        = Nat.digits 10 n := by
      refine (List.map_congr_left fun d digit => ?_).trans (List.map_id _)
      exact (isDigit_digit (Nat.digits_lt_base (by omega) digit)).2
    simp only [← List.map_reverse, List.reverse_reverse, List.map_map, Function.comp_def, back]
    exact Nat.ofDigits_digits 10 n

theorem decimal_head (n : Nat) :
    decimal n ≠ [] ∧ ¬ (1 < (decimal n).length ∧ (decimal n).head? = some 48) := by
  rw [decimal]
  split
  · simp
  · next positive =>
      have nonempty : Nat.digits 10 n ≠ [] := Nat.digits_ne_nil_iff_ne_zero.mpr positive
      have top : (Nat.digits 10 n).getLast nonempty ≠ 0 := Nat.getLast_digit_ne_zero 10 positive
      have small : (Nat.digits 10 n).getLast nonempty < 10 :=
        Nat.digits_lt_base (by omega) (List.getLast_mem nonempty)
      refine ⟨by simpa using nonempty, ?_⟩
      rintro ⟨-, head⟩
      rw [List.head?_map, List.head?_reverse, List.getLast?_eq_getLast_of_ne_nil nonempty] at head
      have value := congrArg UInt8.toNat (Option.some.inj head)
      rw [UInt8.toNat_ofNat'] at value
      have : (48 : UInt8).toNat = 48 := rfl
      omega

theorem readNat_decimal (n : Nat) {rest : Bytes} (ends : Ends rest) :
    readNat (decimal n ++ rest) = some (n, rest) := by
  have digits := decimal_digits n
  have before : (decimal n ++ rest).takeWhile isDigit = decimal n := by
    rw [List.takeWhile_append_of_pos digits]
    cases rest with
    | nil => simp
    | cons b tail => simp [ends b (by simp)]
  have after : (decimal n ++ rest).dropWhile isDigit = rest := by
    rw [List.dropWhile_append_of_pos digits]
    cases rest with
    | nil => simp
    | cons b tail => simp [ends b (by simp)]
  obtain ⟨nonempty, noZero⟩ := decimal_head n
  rw [readNat, before, after, decimal_value, if_neg (not_or.mpr ⟨nonempty, noZero⟩)]

theorem readInt_decimalInt (v : Int) {rest : Bytes} (ends : Ends rest) :
    readInt (decimalInt v ++ rest) = some (v, rest) := by
  have reads := readNat_decimal v.natAbs ends
  have noSign : (decimal v.natAbs ++ rest).head? ≠ some 45 := by
    cases shape : decimal v.natAbs with
    | nil => exact absurd shape (decimal_head v.natAbs).1
    | cons b tail =>
      intro minus
      have digit := decimal_digits v.natAbs b (by simp [shape])
      rw [Option.some.inj minus] at digit
      exact absurd digit (by decide)
  rw [decimalInt]
  split_ifs with negative
  · rw [readInt, List.cons_append, List.head?_cons, if_pos rfl, List.tail_cons, reads]
    have value : -(v.natAbs : Int) = v := by omega
    simp only [Option.map_some, value]
  · rw [readInt, if_neg noSign, reads]
    have value : (v.natAbs : Int) = v := by omega
    simp only [Option.map_some, value]

theorem skipBlanks_cons {b : UInt8} (visible : isBlank b = false) (rest : Bytes) :
    skipBlanks (b :: rest) = b :: rest := by
  simp [skipBlanks, visible]

/-- No control character, so in particular a single line. -/
def Printable (s : Bytes) : Prop := ∀ c ∈ s, 0x20 ≤ c.toNat

theorem Printable.append {s t : Bytes} (front : Printable s) (back : Printable t) : Printable (s ++ t) :=
  List.forall_mem_append.mpr ⟨front, back⟩

theorem Printable.cons {b : UInt8} {s : Bytes} (first : 0x20 ≤ b.toNat) (rest : Printable s) :
    Printable (b :: s) :=
  List.forall_mem_cons.mpr ⟨first, rest⟩

theorem printable_close {b : UInt8} (printable : 0x20 ≤ b.toNat) : Printable [b] :=
  List.forall_mem_singleton.mpr printable

theorem printable_quote (s : Bytes) : Printable (quote s) :=
  .cons (by decide) (.append (escaped_printable s) (printable_close (by decide)))

theorem printable_joined {first : Bytes} {others : List Bytes} (all : ∀ t ∈ first :: others, Printable t) :
    Printable (joined first others) := by
  refine .append (all first (by simp)) fun c mem => ?_
  obtain ⟨t, listed, mem⟩ := List.mem_flatMap.mp mem
  exact Printable.cons (by decide) (all t (List.mem_cons_of_mem _ listed)) c mem

theorem printable_decimalInt (v : Int) : Printable (decimalInt v) := by
  have digits : Printable (decimal v.natAbs) := by
    intro c mem
    have digit := decimal_digits _ c mem
    simp only [isDigit, Bool.and_eq_true, decide_eq_true_eq] at digit
    omega
  rw [decimalInt]
  split
  · exact .cons (by decide) digits
  · exact digits

/-- A line of text that is read as a value in front of anything that ends one. -/
structure Written where
  text : Bytes
  value : Value
  printable : Printable text
  reads : ∀ fuel rest, text.length ≤ fuel → Ends rest → readValue fuel (text ++ rest) = some (value, rest)

theorem Written.read_text (w : Written) : read w.text = some w.value := by
  have whole := w.reads w.text.length [] le_rfl (by intro b mem; cases mem)
  rw [List.append_nil] at whole
  simp [read, whole, skipBlanks]

def Written.string (s : Bytes) : Written where
  text := quote s
  value := .string s
  printable := printable_quote s
  reads := by
    intro fuel rest enough _
    obtain ⟨fuel, rfl⟩ : ∃ k, fuel = k + 1 := ⟨fuel - 1, by simp [quote] at enough; omega⟩
    rw [quote, List.cons_append, List.append_assoc, readValue, skipBlanks_cons (by decide)]
    simp only [if_true, List.cons_append, List.nil_append, readString_quote]
    rfl

def Written.int (v : Int) : Written where
  text := decimalInt v
  value := .int v
  printable := printable_decimalInt v
  reads := by
    intro fuel rest enough ends
    have reads := readInt_decimalInt v ends
    obtain ⟨b, tail, shape, first⟩ : ∃ b tail, decimalInt v = b :: tail ∧ (b = 45 ∨ isDigit b = true) := by
      rw [decimalInt]
      split
      · exact ⟨_, _, rfl, Or.inl rfl⟩
      · cases digits : decimal v.natAbs with
        | nil => exact absurd digits (decimal_head _).1
        | cons b tail => exact ⟨b, tail, rfl, Or.inr (decimal_digits v.natAbs b (by simp [digits]))⟩
    have table : ∀ b : UInt8, b = 45 ∨ isDigit b = true →
        isBlank b = false ∧ b ≠ quoteMark ∧ b ≠ openBracket ∧ b ≠ openBrace := by decide +kernel
    obtain ⟨visible, notQuote, notBracket, notBrace⟩ := table b first
    rw [shape, List.cons_append] at reads ⊢
    obtain ⟨fuel, rfl⟩ : ∃ k, fuel = k + 1 := ⟨fuel - 1, by simp [shape] at enough; omega⟩
    rw [readValue, skipBlanks_cons visible]
    simp only [if_neg notQuote, if_neg notBracket, if_neg notBrace, reads]
    rfl

/-! ### Lists -/

/-- A byte that closes a list: it ends a value and is no separator. -/
structure Closes (close : UInt8) : Prop where
  digit : isDigit close = false
  blank : isBlank close = false
  separator : close ≠ comma

section Listed

variable {α β : Type} {item : Bytes → Option (α × Bytes)} {close : UInt8} {text : β → Bytes} {value : β → α}
  {first : β} {others : List β}

/-- The texts are read as the items in front of anything that ends a value. -/
def Items (item : Bytes → Option (α × Bytes)) (text : β → Bytes) (value : β → α) (list : List β) : Prop :=
  ∀ b ∈ list, ∀ rest, Ends rest → item (text b ++ rest) = some (value b, rest)

section

variable (closes : Closes close) (reads : Items item text value (first :: others)) (fuel : Nat)
    (enough : others.length < fuel)

include closes reads fuel enough

theorem sepBy_joined (rest : Bytes) :
    sepBy item close fuel (joined (text first) (others.map text) ++ close :: rest) =
      some ((first :: others).map value, rest) := by
  obtain ⟨digit, blank, separator⟩ := closes
  induction others generalizing first fuel with
  | nil =>
    obtain ⟨fuel, rfl⟩ : ∃ k, fuel = k + 1 := ⟨fuel - 1, by omega⟩
    have one := reads first (by simp) (close :: rest) (by rintro b ⟨⟩; exact digit)
    simp [joined, sepBy, one, skipBlanks_cons blank]
  | cons next others ih =>
    obtain ⟨fuel, rfl⟩ : ∃ k, fuel = k + 1 := ⟨fuel - 1, by omega⟩
    have further := ih (fun b mem => reads b (List.mem_cons_of_mem _ mem)) fuel (by simpa using enough)
    have one := reads first (by simp)
      (comma :: (joined (text next) (others.map text) ++ close :: rest)) (by rintro b ⟨⟩; decide)
    have whole : joined (text first) ((next :: others).map text) ++ close :: rest =
        text first ++ comma :: (joined (text next) (others.map text) ++ close :: rest) := by
      simp [joined]
    rw [whole, sepBy, one]
    simp [skipBlanks_cons (show isBlank comma = false by decide), separator.symm, further]

/-- A list that is not closed at once is read item by item; no item starts with the
closing byte. -/
theorem listed_joined (shut : ∀ s, (skipBlanks s).head? = some close → item s = none) (rest : Bytes) :
    listed item close fuel (joined (text first) (others.map text) ++ close :: rest) =
      some ((first :: others).map value, rest) := by
  have whole := sepBy_joined closes reads fuel enough rest
  rw [listed]
  split
  · next ends =>
      obtain ⟨fuel, rfl⟩ : ∃ k, fuel = k + 1 := ⟨fuel - 1, by omega⟩
      rw [sepBy, shut _ ends] at whole
      cases whole
  · exact whole

end

theorem joined_length (text : β → Bytes) (first : β) (others : List β) :
    others.length ≤ (joined (text first) (others.map text)).length ∧
      ∀ b ∈ first :: others, (text b).length ≤ (joined (text first) (others.map text)).length := by
  induction others with
  | nil => simp [joined]
  | cons t others ih =>
    simp only [joined, List.length_append, List.map_cons, List.flatMap_cons, List.length_cons,
      List.mem_cons, forall_eq_or_imp] at ih ⊢
    refine ⟨by omega, by omega, by omega, fun u mem => ?_⟩
    have := ih.2.2 u mem
    omega

end Listed

theorem readValue_close (fuel : Nat) (s : Bytes) (head : (skipBlanks s).head? = some closeBracket) :
    readValue fuel s = none := by
  cases fuel with
  | zero => rfl
  | succ fuel =>
    rw [readValue]
    split
    · rfl
    · next b rest shape =>
        rw [shape] at head
        cases head
        simp [readInt, readNat, closeBracket, quoteMark, openBracket, openBrace, isDigit]

theorem member_close (value : Bytes → Option (Value × Bytes)) (s : Bytes)
    (head : (skipBlanks s).head? = some closeBrace) : member value s = none := by
  rw [member]
  split
  · rfl
  · next b rest shape =>
      rw [shape] at head
      cases head
      rfl

def Written.array (first : Written) (others : List Written) : Written where
  text := openBracket :: (joined first.text (others.map Written.text) ++ [closeBracket])
  value := .array ((first :: others).map Written.value)
  printable := by
    refine .cons (by decide) (.append (printable_joined ?_) (printable_close (by decide)))
    rw [← List.map_cons]
    exact List.forall_mem_map.mpr fun w _ => w.printable
  reads := by
    intro fuel rest enough _
    obtain ⟨fuel, rfl⟩ : ∃ k, fuel = k + 1 := ⟨fuel - 1, by simp at enough; omega⟩
    obtain ⟨count, within⟩ := joined_length Written.text first others
    simp only [List.length_cons, List.length_append, List.length_nil] at enough
    have items : Items (readValue fuel) Written.text Written.value (first :: others) := by
      intro w mem rest ends
      exact w.reads fuel rest ((within w mem).trans (by omega)) ends
    have inner := listed_joined ⟨by decide, by decide, by decide⟩ items fuel (by omega) (readValue_close fuel) rest
    rw [List.cons_append, List.append_assoc, readValue, skipBlanks_cons (by decide)]
    simp only [List.cons_append, List.nil_append, inner]
    rfl

/-- An array of any length. -/
def Written.list : List Written → Written
  | [] =>
    { text := [openBracket, closeBracket]
      value := .array []
      printable := .cons (by decide) (printable_close (by decide))
      reads := by
        intro fuel rest enough _
        obtain ⟨fuel, rfl⟩ : ∃ k, fuel = k + 1 := ⟨fuel - 1, by simp at enough; omega⟩
        rfl }
  | first :: others => .array first others

def Written.object (first : Bytes × Written) (others : List (Bytes × Written)) : Written where
  text := openBrace :: (joined (memberText first.1 first.2.text)
    (others.map fun m => memberText m.1 m.2.text) ++ [closeBrace])
  value := .object ((first :: others).map fun m => (m.1, m.2.value))
  printable := by
    have member : ∀ m : Bytes × Written, Printable (memberText m.1 m.2.text) := fun m =>
      .append (printable_quote m.1) (.cons (by decide) m.2.printable)
    exact .cons (by decide) (.append (printable_joined (List.forall_mem_cons.mpr
      ⟨member first, List.forall_mem_map.mpr fun m _ => member m⟩)) (printable_close (by decide)))
  reads := by
    intro fuel rest enough _
    obtain ⟨fuel, rfl⟩ : ∃ k, fuel = k + 1 := ⟨fuel - 1, by simp at enough; omega⟩
    obtain ⟨count, within⟩ := joined_length (fun m => memberText m.1 m.2.text) first others
    simp only [List.length_cons, List.length_append, List.length_nil] at enough
    have items : Items (member (readValue fuel)) (fun m => memberText m.1 m.2.text)
        (fun m => (m.1, m.2.value)) (first :: others) := by
      rintro ⟨name, w⟩ mem rest ends
      have size : (memberText name w.text).length ≤ _ := within (name, w) mem
      have short : w.text.length ≤ (memberText name w.text).length := by
        rw [memberText, List.length_append, List.length_cons]
        omega
      have reads := w.reads fuel rest (by omega) ends
      show member (readValue fuel) (memberText name w.text ++ rest) = some ((name, w.value), rest)
      rw [memberText, quote, List.cons_append, List.cons_append, List.append_assoc, List.append_assoc,
        member, skipBlanks_cons (by decide)]
      simp only [if_true, List.cons_append, List.nil_append, readString_quote,
        skipBlanks_cons (show isBlank colon = false by decide), reads]
      rfl
    have inner := listed_joined ⟨by decide, by decide, by decide⟩ items fuel (by omega) (member_close _) rest
    rw [List.cons_append, List.append_assoc, readValue, skipBlanks_cons (by decide)]
    simp only [List.cons_append, List.nil_append, inner]
    rfl

end Microfat.Theory.Json
