/-
# Microfat.Theory.Text — the `strings` operations on byte strings

Strings are byte strings that usually hold UTF-8.  `decodeRune` and
`decodeLastRune` read one rune from either end and answer `runeError` with
width one on malformed input, so every operation below is total on arbitrary
bytes.

`toLower` keeps the two paths of `strings.ToLower`: an ASCII string is lowered
byte by byte, any other string is decoded, mapped and re-encoded (which turns
each malformed byte into the encoding of `runeError`).  Case mapping beyond
ASCII depends on the Unicode version of the toolchain; it is the class
`CaseTable`, about which nothing is assumed.
-/
import Microfat.Theory.Bytes

namespace Microfat.Theory

set_option autoImplicit false

/-- `unicode.ToLower` beyond ASCII. -/
class CaseTable where
  lowerRune : Nat → Nat

/-- The table without case mappings beyond ASCII. -/
@[reducible] def CaseTable.ascii : CaseTable := ⟨fun r => r⟩

/-! ## Runes -/

/-- `utf8.RuneError`, U+FFFD. -/
def runeError : Nat := 0xFFFD

/-- A continuation byte within `lo..hi`. -/
def between (b : UInt8) (lo hi : Nat) : Bool := lo ≤ b.toNat && b.toNat ≤ hi

def isCont (b : UInt8) : Bool := between b 0x80 0xBF

/-- `utf8.DecodeRune`: the first rune and its width.  Overlong forms, surrogates
and values past U+10FFFF are malformed. -/
def decodeRune : Bytes → Nat × Nat
  | [] => (runeError, 0)
  | b0 :: rest =>
    let x := b0.toNat
    if x < 0x80 then (x, 1)
    else match rest with
      | b1 :: tail =>
        if between b0 0xC2 0xDF && isCont b1 then
          ((x - 0xC0) * 64 + (b1.toNat - 0x80), 2)
        else match tail with
          | b2 :: tail' =>
            let second := if x = 0xE0 then between b1 0xA0 0xBF
              else if x = 0xED then between b1 0x80 0x9F else isCont b1
            if between b0 0xE0 0xEF && second && isCont b2 then
              ((x - 0xE0) * 4096 + (b1.toNat - 0x80) * 64 + (b2.toNat - 0x80), 3)
            else match tail' with
              | b3 :: _ =>
                let second := if x = 0xF0 then between b1 0x90 0xBF
                  else if x = 0xF4 then between b1 0x80 0x8F else isCont b1
                if between b0 0xF0 0xF4 && second && isCont b2 && isCont b3 then
                  ((x - 0xF0) * 262144 + (b1.toNat - 0x80) * 4096 +
                    (b2.toNat - 0x80) * 64 + (b3.toNat - 0x80), 4)
                else (runeError, 1)
              | [] => (runeError, 1)
          | [] => (runeError, 1)
      | [] => (runeError, 1)

/-- `utf8.AppendRune`. -/
def encodeRune (r : Nat) : Bytes :=
  let cont (v : Nat) := UInt8.ofNat (0x80 + v % 64)
  if r < 0x80 then [UInt8.ofNat r]
  else if r < 0x800 then [UInt8.ofNat (0xC0 + r / 64), cont r]
  else if (0xD800 ≤ r && r ≤ 0xDFFF) || 0x10FFFF < r then [0xEF, 0xBF, 0xBD]
  else if r < 0x10000 then [UInt8.ofNat (0xE0 + r / 4096), cont (r / 64), cont r]
  else [UInt8.ofNat (0xF0 + r / 262144), cont (r / 4096), cont (r / 64), cont r]

/-- The runes of a string, as a `range` loop visits them.  Every rune of a
non-empty string has positive width, so the length is enough fuel. -/
def runesAux : Nat → Bytes → List Nat
  | 0, _ => []
  | _ + 1, [] => []
  | fuel + 1, b :: bs =>
    let (r, width) := decodeRune (b :: bs)
    r :: runesAux fuel ((b :: bs).drop width)

def runes (s : Bytes) : List Nat := runesAux s.length s

/-- `utf8.DecodeLastRune` on the reversed string: look back over at most three
bytes for a start byte whose rune ends exactly at the end of the string. -/
def decodeLastRune (rev : Bytes) : Nat × Nat :=
  let ending (k : Nat) : Nat × Nat :=
    let (r, width) := decodeRune (rev.take k).reverse
    if width = k then (r, k) else (runeError, 1)
  match rev with
  | [] => (runeError, 0)
  | b :: rest =>
    if b.toNat < 0x80 then (b.toNat, 1)
    else match rest with
      | [] => (runeError, 1)
      | b1 :: rest1 => if !isCont b1 then ending 2 else match rest1 with
        | [] => (runeError, 1)
        | b2 :: rest2 => if !isCont b2 then ending 3 else match rest2 with
          | [] => (runeError, 1)
          | b3 :: _ => if !isCont b3 then ending 4 else (runeError, 1)

/-! ## `strings` -/

variable {s : Bytes}

/-- `unicode.IsSpace`. -/
def isSpace (r : Nat) : Bool :=
  (9 ≤ r && r ≤ 13) || r == 0x20 || r == 0x85 || r == 0xA0 || r == 0x1680 ||
    (0x2000 ≤ r && r ≤ 0x200A) || r == 0x2028 || r == 0x2029 || r == 0x202F ||
    r == 0x205F || r == 0x3000

def trimLeftSpace : Nat → Bytes → Bytes
  | 0, s => s
  | fuel + 1, s =>
    let (r, width) := decodeRune s
    if width ≠ 0 && isSpace r then trimLeftSpace fuel (s.drop width) else s

def trimRightSpace : Nat → Bytes → Bytes
  | 0, rev => rev
  | fuel + 1, rev =>
    let (r, width) := decodeLastRune rev
    if width ≠ 0 && isSpace r then trimRightSpace fuel (rev.drop width) else rev

/-- `strings.TrimSpace`. -/
def trimSpace (s : Bytes) : Bytes :=
  let left := trimLeftSpace s.length s
  (trimRightSpace left.length left.reverse).reverse

/-- `strings.TrimPrefix`. -/
def trimPrefix (s p : Bytes) : Bytes :=
  if p.isPrefixOf s then s.drop p.length else s

def lowerByte (b : UInt8) : UInt8 :=
  if between b 65 90 then b + 32 else b

def isAscii (s : Bytes) : Bool := s.all fun b => b.toNat < 0x80

/-- `unicode.ToLower`. -/
def lowerRune [CaseTable] (r : Nat) : Nat :=
  if r < 0x80 then (if 65 ≤ r ∧ r ≤ 90 then r + 32 else r) else CaseTable.lowerRune r

/-- `strings.ToLower`. -/
def toLower [CaseTable] (s : Bytes) : Bytes :=
  if isAscii s then s.map lowerByte else (runes s).flatMap fun r => encodeRune (lowerRune r)

/-- The ASCII fold of a rune: the only runes beyond ASCII in the fold orbit of an
ASCII letter are U+212A (`k`) and U+017F (`s`). -/
def foldRune (r : Nat) : Nat :=
  if 65 ≤ r ∧ r ≤ 90 then r + 32 else if r = 0x212A then 107 else if r = 0x17F then 115 else r

/-- `strings.EqualFold(s, t)` for an ASCII `t`. -/
def equalFold (s t : Bytes) : Bool :=
  (runes s).map foldRune == t.map fun b => foldRune b.toNat

theorem toLower_ascii [CaseTable] (ascii : isAscii s = true) :
    toLower s = s.map lowerByte := by
  rw [toLower, if_pos ascii]

@[simp] theorem toLower_length_ascii [CaseTable] (ascii : isAscii s = true) :
    (toLower s).length = s.length := by
  rw [toLower_ascii ascii, List.length_map]

/-! ## `path/filepath` on Unix -/

def slash : UInt8 := 47

/-- The text between slashes. -/
def splitSlash : Bytes → List Bytes
  | [] => [[]]
  | b :: bs =>
    if b = slash then [] :: splitSlash bs
    else match splitSlash bs with
      | [] => [[b]]
      | c :: cs => (b :: c) :: cs

/-- One component of `filepath.Clean`, onto the components kept so far, last first. -/
def cleanStep (rooted : Bool) (kept : List Bytes) (c : Bytes) : List Bytes :=
  if c = [] || c = lit "." then kept
  else if c = lit ".." then
    match kept with
    | [] => if rooted then [] else [c]
    | top :: rest => if top = lit ".." then c :: kept else rest
  else c :: kept

/-- `filepath.Clean`. -/
def cleanPath (p : Bytes) : Bytes :=
  let rooted := p.head? == some slash
  let kept := (splitSlash p).foldl (cleanStep rooted) []
  let text := List.intercalate [slash] kept.reverse
  if rooted then slash :: text else if text = [] then lit "." else text

/-- `filepath.Join` of two elements. -/
def joinPath (a b : Bytes) : Bytes :=
  if a = [] then (if b = [] then [] else cleanPath b)
  else if b = [] then cleanPath a
  else cleanPath (a ++ slash :: b)

theorem splitSlash_plain (plain : slash ∉ s) : splitSlash s = [s] := by
  induction s with
  | nil => rfl
  | cons b bs ih =>
    rw [List.mem_cons, not_or] at plain
    rw [splitSlash, if_neg (Ne.symm plain.1), ih plain.2]

/-- A plain file name is clean. -/
theorem cleanPath_plain (plain : slash ∉ s) (nonempty : s ≠ []) (dot : s ≠ lit ".")
    (dots : s ≠ lit "..") : cleanPath s = s := by
  have relative : (s.head? == some slash) = false := by
    cases s with
    | nil => rfl
    | cons b bs =>
      rw [List.mem_cons, not_or] at plain
      simpa using Ne.symm plain.1
  simp [cleanPath, relative, splitSlash_plain plain, cleanStep, nonempty, dot, dots,
    List.intercalate]

theorem splitSlash_ne_nil (s : Bytes) : splitSlash s ≠ [] := by
  cases s with
  | nil => exact List.cons_ne_nil _ _
  | cons b bs =>
    rw [splitSlash]
    split
    · exact List.cons_ne_nil _ _
    · split <;> exact List.cons_ne_nil _ _

theorem splitSlash_concat (a b : Bytes) : splitSlash (a ++ slash :: b) = splitSlash a ++ splitSlash b := by
  induction a with
  | nil => rfl
  | cons x xs ih =>
    rw [List.cons_append, splitSlash, splitSlash, ih]
    by_cases sep : x = slash
    · rw [if_pos sep, if_pos sep, List.cons_append]
    · rw [if_neg sep, if_neg sep]
      cases pieces : splitSlash xs with
      | nil => exact absurd pieces (splitSlash_ne_nil xs)
      | cons c cs => rfl

theorem intercalate_cons_cons (c d : Bytes) (l : List Bytes) :
    List.intercalate [slash] (c :: d :: l) = c ++ slash :: List.intercalate [slash] (d :: l) := by
  simp [List.intercalate]

theorem splitSlash_intercalate {l : List Bytes} (nonempty : l ≠ []) (plain : ∀ c ∈ l, slash ∉ c) :
    splitSlash (List.intercalate [slash] l) = l := by
  induction l with
  | nil => exact absurd rfl nonempty
  | cons c l ih =>
    cases l with
    | nil => simpa [List.intercalate] using splitSlash_plain (plain c (by simp))
    | cons d l =>
      have rest := ih (by simp) fun c mem => plain c (List.mem_cons_of_mem _ mem)
      rw [intercalate_cons_cons, splitSlash_concat, splitSlash_plain (plain c (by simp)), rest,
        List.singleton_append]

theorem splitSlash_pieces (s : Bytes) : ∀ c ∈ splitSlash s, slash ∉ c := by
  induction s with
  | nil => simp [splitSlash]
  | cons b bs ih =>
    intro c mem
    rw [splitSlash] at mem
    split at mem
    · rcases List.mem_cons.mp mem with rfl | older
      · simp
      · exact ih c older
    · next other =>
        split at mem
        · rw [List.mem_singleton.mp mem]
          simpa using Ne.symm other
        · next first rest shape =>
            rw [shape] at ih
            rcases List.mem_cons.mp mem with rfl | older
            · simpa using ⟨Ne.symm other, ih first (by simp)⟩
            · exact ih c (List.mem_cons_of_mem _ older)

/-! ### A cleaned path is clean -/

variable {rooted : Bool} {kept : List Bytes}

/-- What `filepath.Clean` keeps, last component first: proper names, above the
leading `..` of a path that is not rooted. -/
def CleanStack (rooted : Bool) : List Bytes → Prop
  | [] => True
  | c :: kept => CleanStack rooted kept ∧ c ≠ [] ∧ c ≠ lit "." ∧ slash ∉ c ∧
      (c = lit ".." → rooted = false ∧ ∀ d ∈ kept, d = lit "..")

theorem CleanStack.names (clean : CleanStack rooted kept) :
    ∀ c ∈ kept, c ≠ [] ∧ slash ∉ c := by
  induction kept with
  | nil => simp
  | cons c kept ih =>
    exact List.forall_mem_cons.mpr ⟨⟨clean.2.1, clean.2.2.2.1⟩, ih clean.1⟩

theorem cleanStep_clean {c : Bytes} (clean : CleanStack rooted kept) (plain : slash ∉ c) :
    CleanStack rooted (cleanStep rooted kept c) := by
  rw [cleanStep.eq_def]
  by_cases skip : (decide (c = []) || decide (c = lit ".")) = true
  · rw [if_pos skip]
    exact clean
  · rw [if_neg skip]
    simp only [Bool.or_eq_true, decide_eq_true_eq, not_or] at skip
    by_cases parent : c = lit ".."
    · rw [if_pos parent]
      subst parent
      cases kept with
      | nil =>
        cases rooted with
        | true => exact trivial
        | false => exact ⟨trivial, skip.1, skip.2, plain, fun _ => ⟨rfl, by simp⟩⟩
      | cons top rest =>
        by_cases above : top = lit ".."
        · simp only [if_pos above]
          have all := clean.2.2.2.2 above
          refine ⟨clean, skip.1, skip.2, plain, fun _ => ⟨all.1, ?_⟩⟩
          rw [above]
          simpa using all.2
        · simp only [if_neg above]
          exact clean.1
    · rw [if_neg parent]
      exact ⟨clean, skip.1, skip.2, plain, fun same => absurd same parent⟩

theorem foldl_cleanStep_clean {pieces : List Bytes} (plain : ∀ c ∈ pieces, slash ∉ c) (clean : CleanStack rooted kept) :
    CleanStack rooted (pieces.foldl (cleanStep rooted) kept) :=
  List.foldlRecOn (motive := CleanStack rooted) pieces _ clean fun _ clean c mem => cleanStep_clean clean (plain c mem)

/-- Cleaning what was kept keeps it. -/
theorem foldl_cleanStep_kept (clean : CleanStack rooted kept) :
    kept.reverse.foldl (cleanStep rooted) [] = kept := by
  induction kept with
  | nil => rfl
  | cons c kept ih =>
    obtain ⟨below, nonempty, dot, -, dots⟩ := clean
    rw [List.reverse_cons, List.foldl_append, ih below, List.foldl_cons, List.foldl_nil,
      cleanStep.eq_def, if_neg (by simp [nonempty, dot])]
    by_cases parent : c = lit ".."
    · rw [if_pos parent]
      obtain ⟨relative, all⟩ := dots parent
      cases kept with
      | nil => simp [relative]
      | cons top rest => simp only [if_pos (all top (by simp))]
    · rw [if_neg parent]

/-- **`filepath.Clean` is idempotent.** -/
theorem cleanPath_idem (p : Bytes) : cleanPath (cleanPath p) = cleanPath p := by
  generalize rootedEq : (p.head? == some slash) = rooted
  generalize keptEq : (splitSlash p).foldl (cleanStep rooted) [] = kept
  have clean : CleanStack rooted kept := by
    rw [← keptEq]
    exact foldl_cleanStep_clean (splitSlash_pieces p) trivial
  have again : kept ≠ [] →
      (splitSlash (List.intercalate [slash] kept.reverse)).foldl (cleanStep rooted) [] = kept := by
    intro nonempty
    rw [splitSlash_intercalate (by simpa using nonempty)
      fun c mem => (clean.names c (List.mem_reverse.mp mem)).2, foldl_cleanStep_kept clean]
  have cleaned : cleanPath p = if rooted then slash :: List.intercalate [slash] kept.reverse
      else if List.intercalate [slash] kept.reverse = [] then lit "."
      else List.intercalate [slash] kept.reverse := by
    rw [cleanPath, rootedEq, keptEq]
  rw [cleaned]
  cases rooted with
  | true =>
    have fold : (splitSlash (slash :: List.intercalate [slash] kept.reverse)).foldl
        (cleanStep true) [] = kept := by
      rw [splitSlash, if_pos rfl, List.foldl_cons]
      cases kept with
      | nil => decide
      | cons c rest => exact again (by simp)
    rw [if_pos rfl, cleanPath]
    simp [fold]
  | false =>
    simp only [Bool.false_eq_true, if_false]
    by_cases empty : List.intercalate [slash] kept.reverse = []
    · rw [if_pos empty]
      decide
    · rw [if_neg empty]
      have nonempty : kept ≠ [] := by
        rintro rfl
        exact empty rfl
      -- the first component is a proper name, so the path stays relative
      have relative : ((List.intercalate [slash] kept.reverse).head? == some slash) = false := by
        obtain ⟨first, rest, split⟩ := List.exists_cons_of_ne_nil
          (show kept.reverse ≠ [] by simpa using nonempty)
        have mem : first ∈ kept := List.mem_reverse.mp (split ▸ List.mem_cons_self)
        obtain ⟨proper, plain⟩ := clean.names first mem
        obtain ⟨b, bs, rfl⟩ := List.exists_cons_of_ne_nil proper
        have head : (List.intercalate [slash] kept.reverse).head? = some b := by
          rw [split]
          cases rest <;> simp [List.intercalate]
        rw [head]
        simp only [List.mem_cons, not_or] at plain
        simpa using Ne.symm plain.1
      rw [cleanPath, relative]
      simp [again nonempty, empty]

end Microfat.Theory
