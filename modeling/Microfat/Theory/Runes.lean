/-
# Microfat.Theory.Runes — what trimming and lower-casing do to a string

`Theory.Text` decodes a string byte by byte, as the Go library does.  `Sequence` is
the grammar behind it: the well-formed byte sequences and the rune each encodes.
Both decoders, from the front and from the back, are characterised by it once, and
everything else is stated on runes.

* `toLower_runes`: lower-casing is the rune-wise map, on ASCII strings too;
* `toLower_trimSpace`: the lower case of a string contains the lower case of the
  trimmed string, and more than it if the string was not trimmed;
* `Lowered`: strings of lower-case runes, on which lower-casing does nothing; the
  lower case of any string is one when the case table is lawful.
-/
import Microfat.Theory.Text

namespace Microfat.Theory

set_option autoImplicit false

/-! ## Well-formed sequences -/

variable {b : UInt8}

/-- The well-formed sequences of UTF-8 with the runes they encode. -/
inductive Sequence : Bytes → Nat → Prop
  | one {b0 : UInt8} : b0.toNat < 0x80 → Sequence [b0] b0.toNat
  | two {b0 b1 : UInt8} : between b0 0xC2 0xDF = true → isCont b1 = true →
      Sequence [b0, b1] ((b0.toNat - 0xC0) * 64 + (b1.toNat - 0x80))
  | three {b0 b1 b2 : UInt8} : between b0 0xE0 0xEF = true →
      (if b0.toNat = 0xE0 then between b1 0xA0 0xBF
        else if b0.toNat = 0xED then between b1 0x80 0x9F else isCont b1) = true →
      isCont b2 = true →
      Sequence [b0, b1, b2]
        ((b0.toNat - 0xE0) * 4096 + (b1.toNat - 0x80) * 64 + (b2.toNat - 0x80))
  | four {b0 b1 b2 b3 : UInt8} : between b0 0xF0 0xF4 = true →
      (if b0.toNat = 0xF0 then between b1 0x90 0xBF
        else if b0.toNat = 0xF4 then between b1 0x80 0x8F else isCont b1) = true →
      isCont b2 = true → isCont b3 = true →
      Sequence [b0, b1, b2, b3]
        ((b0.toNat - 0xF0) * 262144 + (b1.toNat - 0x80) * 4096 + (b2.toNat - 0x80) * 64 +
          (b3.toNat - 0x80))

theorem between_iff {lo hi : Nat} :
    between b lo hi = true ↔ lo ≤ b.toNat ∧ b.toNat ≤ hi := by
  simp [between]

/-- Ranges apart from each other have no byte in common. -/
theorem between_apart {lo hi lo' hi' : Nat} (inside : between b lo hi = true) (apart : hi < lo' ∨ hi' < lo) :
    between b lo' hi' = false := by
  rw [between_iff] at inside
  rw [← Bool.not_eq_true, between_iff]
  omega

theorem isCont_iff : isCont b = true ↔ 0x80 ≤ b.toNat ∧ b.toNat ≤ 0xBF := between_iff

/-- Every range of second bytes lies within the continuation bytes. -/
theorem isCont_second {b0 b1 : UInt8} {x y lo hi : Nat} (low : 0x80 ≤ lo) (high : hi ≤ 0xBF)
    (second : (if b0.toNat = x then between b1 lo 0xBF
      else if b0.toNat = y then between b1 0x80 hi else isCont b1) = true) : isCont b1 = true := by
  rw [isCont_iff]
  split at second
  · rw [between_iff] at second
    omega
  · split at second
    · rw [between_iff] at second
      omega
    · exact isCont_iff.mp second

namespace Sequence

variable {q : Bytes} {r : Nat}

/-- A sequence is a start byte followed by continuation bytes. -/
theorem shape (seq : Sequence q r) :
    ∃ c tail, q = c :: tail ∧ isCont c = false ∧ ∀ b ∈ tail, isCont b = true := by
  cases seq with
  | one ascii =>
    refine ⟨_, [], rfl, ?_, by simp⟩
    rw [← Bool.not_eq_true, isCont_iff]
    omega
  | two lead second => exact ⟨_, _, rfl, between_apart lead (by decide), by simpa using second⟩
  | three lead second third =>
    have cont := isCont_second (by decide) (by decide) second
    exact ⟨_, _, rfl, between_apart lead (by decide), by simpa using ⟨cont, third⟩⟩
  | four lead second third fourth =>
    have cont := isCont_second (by decide) (by decide) second
    exact ⟨_, _, rfl, between_apart lead (by decide), by simpa using ⟨cont, third, fourth⟩⟩

theorem width (seq : Sequence q r) : 1 ≤ q.length ∧ q.length ≤ 4 := by
  cases seq <;> simp

end Sequence

/-! ## Decoding from the front -/

variable {q : Bytes} {r : Nat}

variable {s : Bytes}

theorem decodeRune_sequence (seq : Sequence q r) (rest : Bytes) :
    decodeRune (q ++ rest) = (r, q.length) := by
  cases seq with
  | one ascii => simp [decodeRune, ascii]
  | @two b0 b1 lead second =>
    have high : ¬ b0.toNat < 0x80 := by rw [between_iff] at lead; omega
    simp [decodeRune, high, lead, second]
  | @three b0 b1 b2 lead second third =>
    have high : ¬ b0.toNat < 0x80 := by rw [between_iff] at lead; omega
    have notTwo : between b0 0xC2 0xDF = false := between_apart lead (by decide)
    simp only [decodeRune, List.cons_append, List.nil_append, high, if_false, notTwo, Bool.false_and,
      Bool.false_eq_true, lead, second, third, Bool.and_self, if_true, List.length_cons,
      List.length_nil]
  | @four b0 b1 b2 b3 lead second third fourth =>
    have high : ¬ b0.toNat < 0x80 := by rw [between_iff] at lead; omega
    have notTwo : between b0 0xC2 0xDF = false := between_apart lead (by decide)
    have notThree : between b0 0xE0 0xEF = false := between_apart lead (by decide)
    simp only [decodeRune, List.cons_append, List.nil_append, high, if_false, notTwo, notThree,
      Bool.false_and, Bool.false_eq_true, lead, second, third, fourth, Bool.and_self, if_true,
      List.length_cons, List.length_nil]

/-- A string starts with a well-formed sequence or with a byte that is an error. -/
theorem decodeRune_cases (nonempty : s ≠ []) :
    (∃ q r rest, s = q ++ rest ∧ Sequence q r) ∨ decodeRune s = (runeError, 1) := by
  match s with
  | [b0] =>
    by_cases ascii : b0.toNat < 0x80
    · exact .inl ⟨[b0], _, [], rfl, .one ascii⟩
    · right; simp [decodeRune, ascii]
  | b0 :: b1 :: tail =>
    by_cases ascii : b0.toNat < 0x80
    · exact .inl ⟨[b0], _, _, rfl, .one ascii⟩
    by_cases two : (between b0 0xC2 0xDF && isCont b1) = true
    · rw [Bool.and_eq_true] at two
      exact .inl ⟨[b0, b1], _, tail, rfl, .two two.1 two.2⟩
    cases tail with
    | nil => right; simp only [decodeRune, if_neg ascii, if_neg two]
    | cons b2 tail =>
      by_cases three : (between b0 0xE0 0xEF && (if b0.toNat = 0xE0 then between b1 0xA0 0xBF
          else if b0.toNat = 0xED then between b1 0x80 0x9F else isCont b1) && isCont b2) = true
      · simp only [Bool.and_eq_true] at three
        exact .inl ⟨[b0, b1, b2], _, tail, rfl, .three three.1.1 three.1.2 three.2⟩
      cases tail with
      | nil => right; simp only [decodeRune, if_neg ascii, if_neg two, if_neg three]
      | cons b3 tail =>
        by_cases four : (between b0 0xF0 0xF4 && (if b0.toNat = 0xF0 then between b1 0x90 0xBF
            else if b0.toNat = 0xF4 then between b1 0x80 0x8F else isCont b1) && isCont b2 &&
            isCont b3) = true
        · simp only [Bool.and_eq_true] at four
          exact .inl ⟨[b0, b1, b2, b3], _, tail, rfl,
            .four four.1.1.1 four.1.1.2 four.1.2 four.2⟩
        · right
          simp only [decodeRune, if_neg ascii, if_neg two, if_neg three, if_neg four]

theorem decodeRune_width (nonempty : s ≠ []) :
    1 ≤ (decodeRune s).2 ∧ (decodeRune s).2 ≤ s.length := by
  rcases decodeRune_cases nonempty with ⟨q, r, rest, rfl, seq⟩ | wrong
  · rw [decodeRune_sequence seq]
    have := seq.width
    simp only [List.length_append]
    omega
  · have := List.length_pos_of_ne_nil nonempty
    rw [wrong]
    omega

/-- What follows a start byte does not change how the string before it is decoded. -/
theorem decodeRune_append (nonempty : s ≠ []) {c : UInt8} (start : isCont c = false) (rest : Bytes) :
    decodeRune (s ++ c :: rest) = decodeRune s := by
  rcases decodeRune_cases (s := s ++ c :: rest) (by simp) with ⟨q, r, more, whole, seq⟩ | wrong
  · rw [whole, decodeRune_sequence seq]
    rcases List.append_eq_append_iff.mp whole with ⟨inner, rfl, follows⟩ | ⟨inner, rfl, -⟩
    · -- the sequence would have `c` among its continuation bytes
      obtain ⟨lead, tail, shape, -, conts⟩ := seq.shape
      cases inner with
      | nil => rw [List.append_nil] at seq ⊢; exact (by simpa using (decodeRune_sequence seq []).symm)
      | cons d inner =>
        obtain ⟨rfl, -⟩ := List.cons_eq_cons.mp follows
        obtain ⟨b, s', rfl⟩ := List.exists_cons_of_ne_nil nonempty
        obtain ⟨-, rfl⟩ := List.cons_eq_cons.mp shape
        have cont := conts c (by simp)
        rw [start] at cont
        cases cont
    · exact (decodeRune_sequence seq inner).symm
  · rcases decodeRune_cases nonempty with ⟨q, r, more, rfl, seq⟩ | alone
    · rw [List.append_assoc, decodeRune_sequence seq] at wrong
      rw [List.append_assoc, decodeRune_sequence seq, decodeRune_sequence seq]
    · rw [wrong, alone]

/-! ## The runes of a string -/

theorem runesAux_fuel {fuel : Nat} : ∀ {s : Bytes}, s.length ≤ fuel → runesAux fuel s = runes s := by
  induction fuel using Nat.strong_induction_on with
  | _ fuel ih =>
    intro s enough
    cases s with
    | nil => cases fuel <;> rfl
    | cons b bs =>
      have step : ∀ n, n + 1 ≤ fuel → (b :: bs).length ≤ n + 1 → runesAux (n + 1) (b :: bs) =
          (decodeRune (b :: bs)).1 :: runes ((b :: bs).drop (decodeRune (b :: bs)).2) := by
        intro n small long
        have width := decodeRune_width (List.cons_ne_nil b bs)
        rw [runesAux]
        dsimp only
        rw [ih n (by omega) (by simp only [List.length_drop] at *; omega)]
      obtain ⟨n, rfl⟩ : ∃ n, fuel = n + 1 := ⟨fuel - 1, by simp at enough; omega⟩
      rw [step n (le_refl _) enough]
      show _ = runesAux (bs.length + 1) (b :: bs)
      rw [step bs.length (by simpa using enough) (le_refl _)]

theorem runes_cons (nonempty : s ≠ []) :
    runes s = (decodeRune s).1 :: runes (s.drop (decodeRune s).2) := by
  obtain ⟨b, bs, rfl⟩ := List.exists_cons_of_ne_nil nonempty
  have width := decodeRune_width nonempty
  rw [runes, List.length_cons, runesAux]
  dsimp only
  rw [runesAux_fuel (by simp only [List.length_drop, List.length_cons]; omega)]

@[simp] theorem runes_nil : runes [] = [] := rfl

theorem runes_sequence (seq : Sequence q r) (rest : Bytes) :
    runes (q ++ rest) = r :: runes rest := by
  obtain ⟨c, tail, rfl, -, -⟩ := seq.shape
  rw [runes_cons (by simp), decodeRune_sequence seq, List.drop_left]

/-- The runes of two strings side by side, when the second starts a rune. -/
theorem runes_append (s : Bytes) {c : UInt8} (start : isCont c = false) (rest : Bytes) :
    runes (s ++ c :: rest) = runes s ++ runes (c :: rest) := by
  induction size : s.length using Nat.strong_induction_on generalizing s with
  | _ n ih =>
    by_cases empty : s = []
    · rw [empty, List.nil_append, runes_nil, List.nil_append]
    · have width := decodeRune_width empty
      rw [runes_cons (by simp), runes_cons empty, decodeRune_append empty start,
        List.drop_append_of_le_length width.2, List.cons_append]
      rw [ih (s.length - (decodeRune s).2) (by omega) _ (by simp)]

/-! ## Scalars -/

variable {rs : List Nat}

/-- The Unicode scalar values, which are the runes UTF-8 encodes. -/
def Scalar (r : Nat) : Prop := r < 0xD800 ∨ 0xDFFF < r ∧ r ≤ 0x10FFFF

/-- The width of a sequence tells the range of its rune. -/
theorem Sequence.range (seq : Sequence q r) :
    Scalar r ∧ (q.length = 1 ∧ r < 0x80 ∨ q.length = 2 ∧ 0x80 ≤ r ∧ r < 0x800 ∨
      q.length = 3 ∧ 0x800 ≤ r ∧ r < 0x10000 ∨ q.length = 4 ∧ 0x10000 ≤ r) := by
  unfold Scalar
  cases seq <;> simp only [List.length_cons, List.length_nil, Nat.reduceAdd, Nat.reduceEqDiff, true_and,
    false_and, or_false, false_or]
  case one ascii => omega
  case two lead second =>
    rw [between_iff] at lead
    rw [isCont_iff] at second
    omega
  case three lead second third =>
    split_ifs at second <;> rw [between_iff] at lead <;> rw [isCont_iff] at third <;>
      simp only [between_iff, isCont_iff] at second <;> omega
  case four lead second third fourth =>
    split_ifs at second <;> rw [between_iff] at lead <;> rw [isCont_iff] at third fourth <;>
      simp only [between_iff, isCont_iff] at second <;> omega

theorem Sequence.scalar (seq : Sequence q r) : Scalar r := seq.range.1

theorem runes_scalar (s : Bytes) : ∀ r ∈ runes s, Scalar r := by
  induction size : s.length using Nat.strong_induction_on generalizing s with
  | _ n ih =>
    by_cases empty : s = []
    · simp [empty]
    · have width := decodeRune_width empty
      rw [runes_cons empty]
      intro r mem
      rcases List.mem_cons.mp mem with rfl | later
      · rcases decodeRune_cases empty with ⟨q, r, rest, rfl, seq⟩ | wrong
        · rw [decodeRune_sequence seq]
          exact seq.scalar
        · rw [wrong]
          exact .inr (by decide)
      · exact ih _ (by rw [List.length_drop]; omega) _ rfl r later

/-- `utf8.AppendRune` writes a well-formed sequence for every scalar. -/
theorem sequence_encodeRune (scalar : Scalar r) : Sequence (encodeRune r) r := by
  have byte : ∀ n, n < 256 → (UInt8.ofNat n).toNat = n := fun n small => by
    exact UInt8.toNat_ofNat_of_lt' small
  have cont : ∀ v, (UInt8.ofNat (0x80 + v % 64)).toNat = 0x80 + v % 64 := fun v => byte _ (by omega)
  unfold Scalar at scalar
  unfold encodeRune
  dsimp only
  split
  · rename_i one
    have seq := @Sequence.one (UInt8.ofNat r) (by rw [byte r (by omega)]; omega)
    rwa [byte r (by omega)] at seq
  · split
    · rename_i high two
      have lead := byte (0xC0 + r / 64) (by omega)
      have seq := @Sequence.two (UInt8.ofNat (0xC0 + r / 64)) (UInt8.ofNat (0x80 + r % 64))
        (by rw [between_iff]; omega) (by rw [isCont_iff, cont]; omega)
      rw [lead, cont] at seq
      rwa [show (0xC0 + r / 64 - 0xC0) * 64 + (0x80 + r % 64 - 0x80) = r by omega] at seq
    · split
      · rename_i bad
        simp only [Bool.or_eq_true, Bool.and_eq_true, decide_eq_true_eq] at bad
        omega
      · split
        · rename_i high2 fine three
          have lead := byte (0xE0 + r / 4096) (by omega)
          have seq := @Sequence.three (UInt8.ofNat (0xE0 + r / 4096))
            (UInt8.ofNat (0x80 + r / 64 % 64)) (UInt8.ofNat (0x80 + r % 64))
            (by rw [between_iff]; omega)
            (by rw [lead]; split_ifs <;> simp only [between_iff, isCont_iff, cont] <;> omega)
            (by rw [isCont_iff, cont]; omega)
          rw [lead, cont, cont] at seq
          rwa [show (0xE0 + r / 4096 - 0xE0) * 4096 + (0x80 + r / 64 % 64 - 0x80) * 64 +
            (0x80 + r % 64 - 0x80) = r by omega] at seq
        · have lead := byte (0xF0 + r / 262144) (by omega)
          have seq := @Sequence.four (UInt8.ofNat (0xF0 + r / 262144))
            (UInt8.ofNat (0x80 + r / 4096 % 64)) (UInt8.ofNat (0x80 + r / 64 % 64))
            (UInt8.ofNat (0x80 + r % 64))
            (by rw [between_iff]; omega)
            (by rw [lead]; split_ifs <;> simp only [between_iff, isCont_iff, cont] <;> omega)
            (by rw [isCont_iff, cont]; omega) (by rw [isCont_iff, cont]; omega)
          rw [lead, cont, cont, cont] at seq
          rwa [show (0xF0 + r / 262144 - 0xF0) * 262144 + (0x80 + r / 4096 % 64 - 0x80) * 4096 +
            (0x80 + r / 64 % 64 - 0x80) * 64 + (0x80 + r % 64 - 0x80) = r by omega] at seq

theorem Sequence.length_encodeRune (seq : Sequence q r) : (encodeRune r).length = q.length := by
  have written := (sequence_encodeRune seq.scalar).range.2
  have read := seq.range.2
  omega

/-- The string of a list of runes. -/
def encodeRunes (rs : List Nat) : Bytes := rs.flatMap encodeRune

theorem runes_encodeRunes (scalars : ∀ r ∈ rs, Scalar r) :
    runes (encodeRunes rs) = rs := by
  induction rs with
  | nil => rfl
  | cons r rs ih =>
    rw [List.forall_mem_cons] at scalars
    rw [encodeRunes, List.flatMap_cons, runes_sequence (sequence_encodeRune scalars.1)]
    exact congrArg (r :: ·) (ih scalars.2)

/-! ## Decoding from the back -/

theorem decodeLastRune_sequence (seq : Sequence q r) (front : Bytes) :
    decodeLastRune (front ++ q).reverse = (r, q.length) := by
  have whole : decodeRune q = (r, q.length) := by simpa using decodeRune_sequence seq []
  obtain ⟨c, tail, shape, start, conts⟩ := seq.shape
  have high : ∀ b ∈ tail, ¬ b.toNat < 0x80 := fun b mem => by
    have := isCont_iff.mp (conts b mem)
    omega
  cases seq with
  | one ascii => simp [decodeLastRune, ascii]
  | two | three | four =>
    obtain ⟨rfl, rfl⟩ := List.cons_eq_cons.mp shape
    simp only [List.mem_cons, List.not_mem_nil, or_false, forall_eq_or_imp, forall_eq] at conts high
    simp [decodeLastRune, start, conts, high, whole]

/-- A string that decodes to one rune as a whole is that rune's sequence. -/
theorem sequence_of_decodeRune (nonempty : s ≠ []) (whole : decodeRune s = (r, s.length))
    (fine : r ≠ runeError) : Sequence s r := by
  rcases decodeRune_cases nonempty with ⟨q, r', rest, rfl, seq⟩ | wrong
  · rw [decodeRune_sequence seq, Prod.mk.injEq, List.length_append] at whole
    obtain ⟨rfl, width⟩ := whole
    have : rest = [] := List.eq_nil_of_length_eq_zero (by omega)
    rwa [this, List.append_nil]
  · rw [wrong, Prod.mk.injEq] at whole
    exact absurd whole.1.symm fine

theorem decodeLastRune_fine {rev : Bytes} (nonempty : rev ≠ [])
    (fine : (decodeLastRune rev).1 ≠ runeError) :
    ∃ front q, rev.reverse = front ++ q ∧ Sequence q (decodeLastRune rev).1 ∧
      q.length = (decodeLastRune rev).2 := by
  generalize last : decodeLastRune rev = decoded at fine ⊢
  obtain ⟨r, w⟩ := decoded
  dsimp only at fine ⊢
  -- a lookback of `k` bytes that decodes to `k` bytes is a sequence at the end
  have ending : ∀ k, k ≤ rev.length → 0 < k →
      (if (decodeRune (rev.take k).reverse).2 = k then ((decodeRune (rev.take k).reverse).1, k)
        else (runeError, 1)) = (r, w) →
      ∃ front q, rev.reverse = front ++ q ∧ Sequence q r ∧ q.length = w := by
    intro k inside positive h
    have size : (rev.take k).reverse.length = k := by simp [inside]
    split at h
    · rename_i width
      rw [Prod.mk.injEq] at h
      obtain ⟨rune, rfl⟩ := h
      refine ⟨(rev.drop k).reverse, (rev.take k).reverse, ?_, ?_, size⟩
      · rw [← List.reverse_append, List.take_append_drop]
      · refine sequence_of_decodeRune (List.ne_nil_of_length_pos (by omega)) ?_ fine
        rw [size]
        exact Prod.ext rune width
    · rw [Prod.mk.injEq] at h
      exact absurd h.1.symm fine
  have error : (runeError, 1) = (r, w) → ∃ front q, rev.reverse = front ++ q ∧ Sequence q r ∧
      q.length = w := fun h => absurd (Prod.mk.inj h).1.symm fine
  rw [decodeLastRune.eq_def] at last
  match rev with
  | [] => exact absurd rfl nonempty
  | [b] =>
    by_cases ascii : b.toNat < 0x80
    · simp only [if_pos ascii, Prod.mk.injEq] at last
      obtain ⟨rfl, rfl⟩ := last
      exact ⟨[], [b], rfl, .one ascii, rfl⟩
    · exact error (by simpa only [if_neg ascii] using last)
  | b :: b1 :: rest =>
    by_cases ascii : b.toNat < 0x80
    · simp only [if_pos ascii, Prod.mk.injEq] at last
      obtain ⟨rfl, rfl⟩ := last
      exact ⟨(b1 :: rest).reverse, [b], by simp, .one ascii, rfl⟩
    simp only [if_neg ascii] at last
    by_cases start1 : (!isCont b1) = true
    · exact ending 2 (by simp) (by decide) (by simpa only [if_pos start1] using last)
    rw [if_neg start1] at last
    match rest with
    | [] => exact error last
    | b2 :: rest =>
      dsimp only at last
      by_cases start2 : (!isCont b2) = true
      · exact ending 3 (by simp) (by decide) (by simpa only [if_pos start2] using last)
      rw [if_neg start2] at last
      match rest with
      | [] => exact error last
      | b3 :: rest =>
        dsimp only at last
        by_cases start3 : (!isCont b3) = true
        · exact ending 4 (by simp) (by decide) (by simpa only [if_pos start3] using last)
        · exact error (by simpa only [if_neg start3] using last)

theorem runes_eq_nil : runes s = [] ↔ s = [] := by
  constructor
  · intro none
    by_contra nonempty
    rw [runes_cons nonempty] at none
    cases none
  · rintro rfl
    rfl

/-- The runes of a string with a sequence at its end. -/
theorem runes_append_sequence (front : Bytes) (seq : Sequence q r) :
    runes (front ++ q) = runes front ++ [r] := by
  have alone : runes q = [r] := by simpa using runes_sequence seq []
  obtain ⟨c, tail, rfl, start, -⟩ := seq.shape
  rw [runes_append front start, alone]

/-- The last rune of a string, when it is not an error, is a sequence at its end. -/
theorem runes_getLast (split : runes s = rs ++ [r]) (fine : r ≠ runeError) :
    ∃ front q, s = front ++ q ∧ Sequence q r := by
  induction rs generalizing s with
  | nil =>
    have nonempty : s ≠ [] := fun empty => by simp [empty] at split
    have width := decodeRune_width nonempty
    rw [runes_cons nonempty, List.nil_append, List.cons_eq_cons, runes_eq_nil,
      List.drop_eq_nil_iff] at split
    exact ⟨[], s, rfl, sequence_of_decodeRune nonempty
      (Prod.ext split.1 (by dsimp only; omega)) fine⟩
  | cons r' rs ih =>
    have nonempty : s ≠ [] := fun empty => by simp [empty] at split
    rw [runes_cons nonempty, List.cons_append, List.cons_eq_cons] at split
    obtain ⟨front, q, rest, seq⟩ := ih split.2
    refine ⟨s.take (decodeRune s).2 ++ front, q, ?_, seq⟩
    rw [List.append_assoc, ← rest, List.take_append_drop]

/-! ## Trimming -/

theorem space_fine (space : isSpace r = true) : r ≠ runeError := by
  rintro rfl
  revert space
  decide

theorem trimLeftSpace_runes (fuel : Nat) : ∀ s : Bytes, ∃ gone,
    runes s = gone ++ runes (trimLeftSpace fuel s) ∧ (gone = [] → trimLeftSpace fuel s = s) ∧
      ∀ r ∈ gone, isSpace r = true := by
  induction fuel with
  | zero => exact fun s => ⟨[], rfl, fun _ => rfl, nofun⟩
  | succ fuel ih =>
    intro s
    rw [trimLeftSpace]
    dsimp only
    split
    · rename_i spaced
      rw [Bool.and_eq_true] at spaced
      have nonempty : s ≠ [] := by
        rintro rfl
        exact absurd spaced.1 (by decide)
      obtain ⟨gone, split, -, spaces⟩ := ih (s.drop (decodeRune s).2)
      exact ⟨(decodeRune s).1 :: gone, by rw [runes_cons nonempty, split]; rfl, by simp,
        List.forall_mem_cons.mpr ⟨spaced.2, spaces⟩⟩
    · exact ⟨[], rfl, fun _ => rfl, nofun⟩

/-- Trimming on the right cuts a piece off, and only spaces. -/
theorem trimRightSpace_runes (fuel : Nat) : ∀ rev : Bytes, ∃ gone,
    runes rev.reverse = runes (trimRightSpace fuel rev).reverse ++ gone ∧
      (gone = [] → trimRightSpace fuel rev = rev) ∧ (∀ r ∈ gone, isSpace r = true) ∧
        ∃ k, trimRightSpace fuel rev = rev.drop k := by
  induction fuel with
  | zero => exact fun rev => ⟨[], by simp [trimRightSpace], fun _ => rfl, nofun, 0, rfl⟩
  | succ fuel ih =>
    intro rev
    rw [trimRightSpace]
    dsimp only
    split
    · rename_i spaced
      rw [Bool.and_eq_true] at spaced
      have nonempty : rev ≠ [] := by
        rintro rfl
        exact absurd spaced.1 (by decide)
      obtain ⟨front, q, whole, seq, width⟩ :=
        decodeLastRune_fine nonempty (space_fine spaced.2)
      obtain ⟨gone, split, -, spaces, k, cut⟩ := ih (rev.drop (decodeLastRune rev).2)
      have rest : (rev.drop (decodeLastRune rev).2).reverse = front := by
        rw [← width, List.reverse_drop, whole]
        have := congrArg List.length whole
        rw [List.length_reverse, List.length_append] at this
        rw [show rev.length - q.length = front.length by omega, List.take_left]
      refine ⟨gone ++ [(decodeLastRune rev).1], ?_, by simp, ?_, _, cut.trans List.drop_drop⟩
      · rw [whole, runes_append_sequence front seq, ← List.append_assoc, ← split, rest]
      · exact List.forall_mem_append.mpr ⟨spaces, List.forall_mem_singleton.mpr spaced.2⟩
    · exact ⟨[], by simp, fun _ => rfl, nofun, 0, rfl⟩

/-- Enough steps leave no space at the end. -/
theorem trimRightSpace_last {fuel : Nat} : ∀ {rev : Bytes}, rev.length ≤ fuel →
    isSpace (decodeLastRune (trimRightSpace fuel rev)).1 = false := by
  induction fuel with
  | zero =>
    intro rev short
    rw [List.eq_nil_of_length_eq_zero (Nat.le_zero.mp short)]
    decide
  | succ fuel ih =>
    intro rev short
    rw [trimRightSpace]
    dsimp only
    split
    · rename_i spaced
      rw [Bool.and_eq_true, decide_eq_true_eq] at spaced
      exact ih (by rw [List.length_drop]; omega)
    · rename_i plain
      by_cases empty : rev = []
      · rw [empty]
        decide
      · rw [Bool.and_eq_true, not_and, Bool.not_eq_true] at plain
        cases space : isSpace (decodeLastRune rev).1 with
        | false => rfl
        | true =>
          obtain ⟨front, q, -, seq, width⟩ :=
            decodeLastRune_fine empty (space_fine space)
          have := seq.width
          rw [← space]
          exact plain (decide_eq_true (by omega))

/-- Trimming takes whole runes off both ends, all of them spaces. -/
theorem trimSpace_runes (s : Bytes) : ∃ left right,
    runes s = left ++ runes (trimSpace s) ++ right ∧
      (left = [] → right = [] → trimSpace s = s) ∧ ∀ r ∈ left ++ right, isSpace r = true := by
  obtain ⟨left, front, keptLeft, spacesLeft⟩ := trimLeftSpace_runes s.length s
  obtain ⟨right, back, keptRight, spacesRight, -⟩ := trimRightSpace_runes (trimLeftSpace s.length s).length
    (trimLeftSpace s.length s).reverse
  rw [List.reverse_reverse] at back
  refine ⟨left, right, by rw [front, back, List.append_assoc]; rfl, fun noneLeft noneRight => ?_,
    List.forall_mem_append.mpr ⟨spacesLeft, spacesRight⟩⟩
  show (trimRightSpace _ _).reverse = s
  rw [keptRight noneRight, List.reverse_reverse, keptLeft noneLeft]

/-- A text that starts with a plain byte still starts with it. -/
theorem trimSpace_cons (ascii : b.toNat < 0x80) (plain : isSpace b.toNat = false) (bs : Bytes) :
    ∃ rest, trimSpace (b :: bs) = b :: rest := by
  have first : runes (b :: bs) = b.toNat :: runes bs := runes_sequence (.one ascii) bs
  have left : trimLeftSpace (b :: bs).length (b :: bs) = b :: bs := by
    have decoded : decodeRune (b :: bs) = (b.toNat, 1) := decodeRune_sequence (.one ascii) bs
    rw [List.length_cons, trimLeftSpace, decoded]
    simp [plain]
  rw [trimSpace, left]
  obtain ⟨gone, whole, -, spaces, k, cut⟩ := trimRightSpace_runes (b :: bs).length (b :: bs).reverse
  rw [List.reverse_reverse, first] at whole
  rw [cut, List.reverse_drop, List.reverse_reverse] at whole ⊢
  cases kept : (b :: bs).reverse.length - k with
  | zero =>
    rw [kept, List.take_zero, runes_nil, List.nil_append] at whole
    rw [spaces b.toNat (by rw [← whole]; exact List.mem_cons_self)] at plain
    cases plain
  | succ n => exact ⟨bs.take n, rfl⟩

theorem trimSpace_getLast (s : Bytes) (split : runes (trimSpace s) = rs ++ [r]) :
    isSpace r = false := by
  cases space : isSpace r with
  | false => rfl
  | true =>
    obtain ⟨front, q, whole, seq⟩ := runes_getLast split (space_fine space)
    have last : isSpace (decodeLastRune (trimSpace s).reverse).1 = false := by
      rw [trimSpace, List.reverse_reverse]
      exact trimRightSpace_last (by simp)
    rw [whole, decodeLastRune_sequence seq, space] at last
    cases last

/-- A string without a space at either end is left alone. -/
theorem trimSpace_eq_self (first : ∀ r rs, runes s = r :: rs → isSpace r = false)
    (last : ∀ rs r, runes s = rs ++ [r] → isSpace r = false) : trimSpace s = s := by
  obtain ⟨left, right, whole, kept, spaces⟩ := trimSpace_runes s
  refine kept ?_ ?_
  · cases left with
    | nil => rfl
    | cons r left =>
      have plain := first r _ whole
      rw [spaces r (by simp)] at plain
      cases plain
  · rcases List.eq_nil_or_concat right with empty | ⟨right, r, rfl⟩
    · exact empty
    · have plain := last (left ++ runes (trimSpace s) ++ right) r (by rw [whole]; simp)
      rw [spaces r (by simp)] at plain
      cases plain

/-! ## Lower-casing -/

theorem runes_ascii (ascii : isAscii s = true) : runes s = s.map UInt8.toNat := by
  induction s with
  | nil => rfl
  | cons b s ih =>
    rw [isAscii, List.all_cons, Bool.and_eq_true, decide_eq_true_eq] at ascii
    rw [List.map_cons, ← ih ascii.2]
    exact runes_sequence (.one ascii.1) s

theorem Sequence.ascii (seq : Sequence q r) (small : r < 0x80) : isAscii q = true := by
  have range := seq.range.2
  cases seq with
  | one ascii => simpa [isAscii] using ascii
  | _ =>
    simp at range
    omega

/-- A string that is not ASCII has a rune beyond ASCII. -/
theorem exists_high_rune (notAscii : ¬ isAscii s = true) : ∃ r ∈ runes s, 0x80 ≤ r := by
  induction size : s.length using Nat.strong_induction_on generalizing s with
  | _ n ih =>
    have nonempty : s ≠ [] := by
      rintro rfl
      exact notAscii rfl
    rcases decodeRune_cases nonempty with ⟨q, r, rest, rfl, seq⟩ | wrong
    · rw [runes_sequence seq]
      by_cases small : r < 0x80
      · have first := seq.ascii small
        have later : ¬ isAscii rest = true := fun ascii => notAscii (by
          rw [isAscii, List.all_append, Bool.and_eq_true]
          exact ⟨first, ascii⟩)
        have width := seq.width
        obtain ⟨r', mem, high⟩ := ih rest.length (by rw [← size, List.length_append]; omega) later rfl
        exact ⟨r', List.mem_cons_of_mem _ mem, high⟩
      · exact ⟨r, List.mem_cons_self, by omega⟩
    · rw [runes_cons nonempty, wrong]
      exact ⟨runeError, List.mem_cons_self, by decide⟩

theorem exists_high_byte (high : 0x80 ≤ r) : ∃ b ∈ encodeRune r, 0x80 ≤ b.toNat := by
  have cont : ∀ v, 0x80 ≤ (UInt8.ofNat (0x80 + v % 64)).toNat := fun v => by
    rw [UInt8.toNat_ofNat']
    omega
  rw [encodeRune, if_neg (by omega)]
  dsimp only
  split_ifs
  · exact ⟨_, by simp, cont r⟩
  · exact ⟨0xEF, by simp, by decide⟩
  · exact ⟨_, by simp, cont r⟩
  · exact ⟨_, by simp, cont r⟩

theorem encodeRune_byte (ascii : b.toNat < 0x80) : encodeRune b.toNat = [b] := by
  rw [encodeRune, if_pos ascii, UInt8.ofNat_toNat]

theorem encodeRunes_ascii (ascii : isAscii s = true) :
    encodeRunes (s.map UInt8.toNat) = s := by
  induction s with
  | nil => rfl
  | cons b s ih =>
    rw [isAscii, List.all_cons, Bool.and_eq_true, decide_eq_true_eq] at ascii
    rw [List.map_cons, encodeRunes, List.flatMap_cons, encodeRune_byte ascii.1]
    exact congrArg (b :: ·) (ih ascii.2)

section

variable [CaseTable]

theorem lowerRune_byte (ascii : b.toNat < 0x80) :
    lowerRune b.toNat = (lowerByte b).toNat ∧ (lowerByte b).toNat < 0x80 := by
  rw [lowerRune, if_pos ascii, lowerByte]
  split
  · rename_i upper
    rw [if_pos (between_iff.mpr upper), UInt8.toNat_add]
    have : (32 : UInt8).toNat = 32 := rfl
    omega
  · rename_i plain
    rw [if_neg (by rwa [between_iff])]
    exact ⟨rfl, ascii⟩

/-- Lower-casing maps the runes, on ASCII strings too. -/
theorem toLower_runes (s : Bytes) : toLower s = encodeRunes ((runes s).map lowerRune) := by
  by_cases ascii : isAscii s = true
  · rw [toLower_ascii ascii, runes_ascii ascii, List.map_map]
    have lowered : s.map (lowerRune ∘ UInt8.toNat) = (s.map lowerByte).map UInt8.toNat := by
      rw [List.map_map]
      refine List.map_congr_left fun b mem => (lowerRune_byte ?_).1
      simpa using List.all_eq_true.mp ascii b mem
    have small : isAscii (s.map lowerByte) = true := by
      rw [isAscii, List.all_map, List.all_eq_true]
      intro b mem
      have byte : b.toNat < 0x80 := by simpa using List.all_eq_true.mp ascii b mem
      simpa using (lowerRune_byte byte).2
    rw [lowered, encodeRunes_ascii small]
  · rw [toLower, if_neg ascii, encodeRunes, List.flatMap_map]

theorem toLower_cons (ascii : b.toNat < 0x80) (bs : Bytes) :
    toLower (b :: bs) = lowerByte b :: toLower bs := by
  have first : runes (b :: bs) = b.toNat :: runes bs := runes_sequence (.one ascii) bs
  obtain ⟨lowered, small⟩ := lowerRune_byte ascii
  rw [toLower_runes, toLower_runes, first, List.map_cons, lowered, encodeRunes, List.flatMap_cons,
    encodeRune_byte small]
  rfl

/-- The lower case of a string contains that of the trimmed string, and is longer
if something was trimmed. -/
theorem toLower_trimSpace (s : Bytes) : ∃ left right,
    toLower s = left ++ toLower (trimSpace s) ++ right ∧
      (left = [] → right = [] → trimSpace s = s) := by
  have empty : ∀ rs : List Nat, encodeRunes (rs.map lowerRune) = [] → rs = [] := by
    intro rs none
    cases rs with
    | nil => rfl
    | cons r rs =>
      rw [List.map_cons, encodeRunes, List.flatMap_cons, List.append_eq_nil_iff] at none
      have : encodeRune (lowerRune r) ≠ [] := by
        unfold encodeRune
        dsimp only
        split_ifs <;> simp
      exact absurd none.1 this
  obtain ⟨left, right, whole, kept, -⟩ := trimSpace_runes s
  refine ⟨encodeRunes (left.map lowerRune), encodeRunes (right.map lowerRune), ?_, ?_⟩
  · rw [toLower_runes s, whole, toLower_runes (trimSpace s)]
    simp only [encodeRunes, List.map_append, List.flatMap_append]
  · exact fun noneLeft noneRight => kept (empty left noneLeft) (empty right noneRight)

/-- What `unicode.ToLower` promises: it maps scalars to scalars, a second
application changes nothing, and it makes no space out of anything else. -/
class LawfulCase : Prop where
  scalar : ∀ r, Scalar r → Scalar (lowerRune r)
  idempotent : ∀ r, Scalar r → lowerRune (lowerRune r) = lowerRune r
  space : ∀ r, Scalar r → isSpace (lowerRune r) = true → isSpace r = true

/-- Runes of a string that is already in lower case. -/
def Lowered (rs : List Nat) : Prop := ∀ r ∈ rs, Scalar r ∧ lowerRune r = r

theorem toLower_lowered (lowered : Lowered rs) :
    toLower (encodeRunes rs) = encodeRunes rs := by
  rw [toLower_runes, runes_encodeRunes fun r mem => (lowered r mem).1]
  rw [List.map_congr_left (g := id) fun r mem => (lowered r mem).2, List.map_id]

theorem lowered_runes [LawfulCase] (s : Bytes) : Lowered ((runes s).map lowerRune) := by
  intro r mem
  obtain ⟨r, inside, rfl⟩ := List.mem_map.mp mem
  have scalar := runes_scalar s r inside
  exact ⟨LawfulCase.scalar r scalar, LawfulCase.idempotent r scalar⟩

end

section

local instance runesTable : CaseTable := CaseTable.ascii

theorem lowerRune_ascii (r : Nat) : lowerRune r = if 65 ≤ r ∧ r ≤ 90 then r + 32 else r := by
  rw [lowerRune]
  split_ifs with small upper upper
  · rfl
  · rfl
  · omega
  · rfl

/-- The table without case mappings beyond ASCII is lawful. -/
theorem lawfulCase_ascii : LawfulCase := by
  constructor
  · intro r scalar
    rw [lowerRune_ascii]
    unfold Scalar at *
    split <;> omega
  · intro r _
    rw [lowerRune_ascii, lowerRune_ascii]
    split_ifs <;> omega
  · intro r _ space
    rw [lowerRune_ascii] at space
    simp only [isSpace, Bool.or_eq_true, Bool.and_eq_true, decide_eq_true_eq, beq_iff_eq] at space ⊢
    split at space <;> omega

end

/-! ## ASCII prefixes -/

/-- An ASCII prefix of a string is a prefix of its runes. -/
theorem encodeRunes_prefix {p : Bytes} (ascii : isAscii p = true) : ∀ {rs : List Nat},
    (∀ r ∈ rs, Scalar r) → p.isPrefixOf (encodeRunes rs) = true →
      ∃ rest, rs = p.map UInt8.toNat ++ rest ∧
        (encodeRunes rs).drop p.length = encodeRunes rest := by
  induction p with
  | nil => exact fun _ _ => ⟨_, rfl, rfl⟩
  | cons b p ih =>
    intro rs scalars front
    rw [isAscii, List.all_cons, Bool.and_eq_true, decide_eq_true_eq] at ascii
    cases rs with
    | nil => cases front
    | cons r rs =>
      rw [List.forall_mem_cons] at scalars
      have first : encodeRune r = [b] ∧ r = b.toNat := by
        have seq := sequence_encodeRune scalars.1
        rw [encodeRunes, List.flatMap_cons] at front
        generalize encodeRune r = q at seq front
        cases seq with
        | one small =>
          rw [List.cons_append, List.isPrefixOf_cons_cons, Bool.and_eq_true, beq_iff_eq] at front
          exact ⟨by rw [front.1], by rw [front.1]⟩
        | two lead | three lead | four lead =>
          rw [List.cons_append, List.isPrefixOf_cons_cons, Bool.and_eq_true, beq_iff_eq] at front
          rw [between_iff, ← front.1] at lead
          omega
      have cons : encodeRunes (r :: rs) = b :: encodeRunes rs := by
        rw [encodeRunes, List.flatMap_cons, first.1]
        rfl
      rw [cons, List.isPrefixOf_cons_cons, Bool.and_eq_true] at front
      obtain ⟨rest, split, dropped⟩ := ih ascii.2 scalars.2 front.2
      refine ⟨rest, by rw [List.map_cons, List.cons_append, ← split, ← first.2], ?_⟩
      rw [cons, List.length_cons, List.drop_succ_cons, dropped]

theorem trimPrefix_encodeRunes {p : Bytes} (ascii : isAscii p = true) (scalars : ∀ r ∈ rs, Scalar r) :
    ∃ gone rest, rs = gone ++ rest ∧ trimPrefix (encodeRunes rs) p = encodeRunes rest := by
  rw [trimPrefix]
  split
  · rename_i front
    obtain ⟨rest, split, dropped⟩ := encodeRunes_prefix ascii scalars front
    exact ⟨_, rest, split, dropped⟩
  · exact ⟨[], rs, rfl, rfl⟩

theorem foldl_trimPrefix_encodeRunes {ps : List Bytes} (ascii : ∀ p ∈ ps, isAscii p = true) :
    ∀ {rs : List Nat}, (∀ r ∈ rs, Scalar r) →
      ∃ gone rest, rs = gone ++ rest ∧ ps.foldl trimPrefix (encodeRunes rs) = encodeRunes rest := by
  induction ps with
  | nil => exact fun _ => ⟨[], _, rfl, rfl⟩
  | cons p ps ih =>
    intro rs scalars
    rw [List.forall_mem_cons] at ascii
    obtain ⟨gone, rest, rfl, trimmed⟩ := trimPrefix_encodeRunes ascii.1 scalars
    obtain ⟨gone', rest', rfl, folded⟩ :=
      ih ascii.2 fun r mem => scalars r (List.mem_append_right gone mem)
    exact ⟨gone ++ gone', rest', by rw [List.append_assoc], by rw [List.foldl_cons, trimmed, folded]⟩

/-! ## Well-formed strings -/

/-- A well-formed string all of whose runes satisfy `P`. -/
inductive WellFormed (P : Nat → Prop) : Bytes → Prop
  | nil : WellFormed P []
  | cons {q rest : Bytes} {r : Nat} (seq : Sequence q r) (fine : P r) (tail : WellFormed P rest) :
      WellFormed P (q ++ rest)

theorem WellFormed.append {P : Nat → Prop} {t : Bytes} (front : WellFormed P s) (back : WellFormed P t) :
    WellFormed P (s ++ t) := by
  induction front with
  | nil => exact back
  | cons seq fine _ ih =>
    rw [List.append_assoc]
    exact .cons seq fine ih

theorem Sequence.wellFormed {P : Nat → Prop} (seq : Sequence q r) (fine : P r) : WellFormed P q := by
  simpa using WellFormed.cons seq fine .nil

theorem wellFormed_ascii {P : Nat → Prop} (plain : ∀ b ∈ s, b.toNat < 0x80 ∧ P b.toNat) :
    WellFormed P s := by
  induction s with
  | nil => exact .nil
  | cons b s ih =>
    rw [List.forall_mem_cons] at plain
    exact (Sequence.one plain.1.1).wellFormed plain.1.2 |>.append (ih plain.2)

end Microfat.Theory
