/-
# Microfat.Theory.Paths — clean absolute paths as lists of names

A clean absolute path is a list of names (`pathOf`).  On such paths the functions of
`path/filepath` are list operations: `filepath.Join` appends (`joinPath_pathOf`,
`joinPath_name`), and `filepath.Dir` drops the last name (`dirPath_pathOf`).  Every path
that `filepath.Clean` makes of an absolute one has this form (`cleanPath_rooted`).

A walk from a path to its parents ends: `weigh` goes down with every proper step
(`dirPath_weigh`), for any path whatever.
-/
import Microfat.Theory.Text

namespace Microfat.Theory

set_option autoImplicit false

/-! ## Names -/

variable {names : List Bytes}

/-- A component that `filepath.Clean` keeps as it is. -/
def IsName (c : Bytes) : Prop := c ≠ [] ∧ c ≠ lit "." ∧ c ≠ lit ".." ∧ slash ∉ c

instance (c : Bytes) : Decidable (IsName c) := inferInstanceAs (Decidable (_ ∧ _))

/-- The absolute path of a list of names. -/
def pathOf (names : List Bytes) : Bytes :=
  if names = [] then [slash] else names.flatMap (slash :: ·)

theorem pathOf_append_name (names : List Bytes) (c : Bytes) :
    pathOf (names ++ [c]) = names.flatMap (slash :: ·) ++ slash :: c := by
  rw [pathOf, if_neg (by simp), List.flatMap_append, List.flatMap_singleton]

theorem pathOf_of_ne (some : names ≠ []) : pathOf names = names.flatMap (slash :: ·) :=
  if_neg some

section

variable (names : List Bytes)

theorem pathOf_eq_intercalate : slash :: List.intercalate [slash] names = pathOf names := by
  induction names with
  | nil => rfl
  | cons c names ih =>
    cases names with
    | nil => simp [pathOf, List.intercalate]
    | cons d names =>
      rw [intercalate_cons_cons, ih, pathOf_of_ne (by simp), pathOf_of_ne (by simp)]
      rfl

theorem pathOf_head : (pathOf names).head? = some slash := by
  rw [← pathOf_eq_intercalate]
  rfl

theorem pathOf_ne_nil : pathOf names ≠ [] := by
  rw [← pathOf_eq_intercalate]
  exact List.cons_ne_nil _ _

end

/-! ## Cleaning -/

variable {p : Bytes}

/-- Names are kept one after the other. -/
theorem foldl_cleanStep_names (proper : ∀ c ∈ names, IsName c) (rooted : Bool) :
    ∀ kept, names.foldl (cleanStep rooted) kept = names.reverse ++ kept := by
  induction names with
  | nil => exact fun _ => rfl
  | cons c names ih =>
    intro kept
    obtain ⟨nonempty, dot, dots, -⟩ := proper c List.mem_cons_self
    have step : cleanStep rooted kept c = c :: kept := by
      rw [cleanStep.eq_def, if_neg (by simp [nonempty, dot]), if_neg dots]
    rw [List.foldl_cons, step, ih fun d mem => proper d (List.mem_cons_of_mem _ mem), List.reverse_cons,
      List.append_assoc, List.singleton_append]

/-- An empty component is skipped. -/
theorem cleanStep_nil (rooted : Bool) (kept : List Bytes) : cleanStep rooted kept [] = kept := by
  rw [cleanStep.eq_def, if_pos (by simp)]

theorem foldl_cleanStep_pathOf (proper : ∀ c ∈ names, IsName c) (kept : List Bytes) :
    (splitSlash (pathOf names)).foldl (cleanStep true) kept = names.reverse ++ kept := by
  rw [← pathOf_eq_intercalate, splitSlash, if_pos rfl, List.foldl_cons, cleanStep_nil]
  cases names with
  | nil => exact cleanStep_nil true kept
  | cons c names =>
    rw [splitSlash_intercalate (List.cons_ne_nil _ _) fun d mem => (proper d mem).2.2.2,
      foldl_cleanStep_names proper]

theorem cleanPath_of_rooted (rooted : p.head? = some slash) :
    cleanPath p = pathOf ((splitSlash p).foldl (cleanStep true) []).reverse := by
  rw [cleanPath, rooted]
  exact pathOf_eq_intercalate _

theorem cleanPath_pathOf (proper : ∀ c ∈ names, IsName c) :
    cleanPath (pathOf names) = pathOf names := by
  rw [cleanPath_of_rooted (pathOf_head names), foldl_cleanStep_pathOf proper, List.append_nil, List.reverse_reverse]

/-- What a rooted clean stack holds are names. -/
theorem CleanStack.proper {kept : List Bytes} (clean : CleanStack true kept) : ∀ c ∈ kept, IsName c := by
  induction kept with
  | nil => exact List.forall_mem_nil _
  | cons c kept ih =>
    obtain ⟨below, nonempty, dot, plain, dots⟩ := clean
    refine List.forall_mem_cons.mpr ⟨⟨nonempty, dot, fun parent => ?_, plain⟩, ih below⟩
    cases (dots parent).1

/-- **A cleaned absolute path is a list of names.** -/
theorem cleanPath_rooted (rooted : p.head? = some slash) :
    ∃ names, (∀ c ∈ names, IsName c) ∧ cleanPath p = pathOf names := by
  refine ⟨_, fun c mem => ?_, cleanPath_of_rooted rooted⟩
  have clean : CleanStack true ((splitSlash p).foldl (cleanStep true) []) :=
    foldl_cleanStep_clean (splitSlash_pieces p) trivial
  exact clean.proper c (List.mem_reverse.mp mem)

/-! ## Components -/

variable {a : List Bytes}

/-- The components of a path that are not empty. -/
def components (p : Bytes) : List Bytes := (splitSlash p).filter fun c => decide (c ≠ [])

theorem components_concat (a b : Bytes) : components (a ++ slash :: b) = components a ++ components b := by
  rw [components, splitSlash_concat, List.filter_append]
  rfl

theorem components_pathOf (proper : ∀ c ∈ names, IsName c) :
    components (pathOf names) = names := by
  rw [← pathOf_eq_intercalate]
  change components ([] ++ slash :: List.intercalate [slash] names) = names
  rw [components_concat]
  cases names with
  | nil => rfl
  | cons c names =>
    have kept : ∀ d ∈ c :: names, decide (d ≠ []) = true := fun d mem => decide_eq_true (proper d mem).1
    rw [components, components, splitSlash_intercalate (List.cons_ne_nil _ _) fun d mem => (proper d mem).2.2.2,
      List.filter_eq_self.mpr kept]
    rfl

theorem pathOf_inj {b : List Bytes} (properA : ∀ c ∈ a, IsName c) (properB : ∀ c ∈ b, IsName c)
    (same : pathOf a = pathOf b) : a = b := by
  rw [← components_pathOf properA, same, components_pathOf properB]

/-! ## Joining -/

variable {c : Bytes}

theorem joinPath_kept (proper : ∀ d ∈ a, IsName d) (nonempty : c ≠ []) :
    joinPath (pathOf a) c = pathOf ((splitSlash c).foldl (cleanStep true) a.reverse).reverse := by
  have rooted : (pathOf a ++ slash :: c).head? = some slash := by
    rw [List.head?_append, pathOf_head]
    rfl
  rw [joinPath, if_neg (pathOf_ne_nil a), if_neg nonempty, cleanPath_of_rooted rooted, splitSlash_concat,
    List.foldl_append, foldl_cleanStep_pathOf proper, List.append_nil]

theorem joinPath_pathOf {b : List Bytes} (properA : ∀ c ∈ a, IsName c) (properB : ∀ c ∈ b, IsName c) :
    joinPath (pathOf a) (pathOf b) = pathOf (a ++ b) := by
  rw [joinPath_kept properA (pathOf_ne_nil b), foldl_cleanStep_pathOf properB, ← List.reverse_append,
    List.reverse_reverse]

theorem joinPath_name (proper : ∀ d ∈ a, IsName d) (name : IsName c) :
    joinPath (pathOf a) c = pathOf (a ++ [c]) := by
  rw [joinPath_kept proper name.1, splitSlash_plain name.2.2.2,
    foldl_cleanStep_names (List.forall_mem_singleton.mpr name), ← List.reverse_append, List.reverse_reverse]

/-! ## Parents -/

/-- The path up to its last slash. -/
def upToSlash (p : Bytes) : Bytes := (p.reverse.dropWhile (· ≠ slash)).reverse

/-- `filepath.Dir`. -/
def dirPath (p : Bytes) : Bytes := cleanPath (upToSlash p)

theorem skipped_of_plain (plain : slash ∉ c) : ∀ b ∈ c.reverse, decide (b ≠ slash) = true := by
  intro b mem
  rw [decide_eq_true_eq]
  rintro rfl
  exact plain (List.mem_reverse.mp mem)

theorem upToSlash_concat (a : Bytes) (plain : slash ∉ c) :
    upToSlash (a ++ slash :: c) = a ++ [slash] := by
  rw [upToSlash, List.reverse_append, List.reverse_cons, List.append_assoc,
    List.dropWhile_append_of_pos (skipped_of_plain plain)]
  simp

theorem upToSlash_plain (plain : slash ∉ c) : upToSlash c = [] := by
  rw [upToSlash, List.dropWhile_eq_nil_iff.mpr (skipped_of_plain plain), List.reverse_nil]

/-- A slash at the end is dropped. -/
theorem cleanPath_trailing {a : Bytes} (some : a ≠ []) : cleanPath (a ++ [slash]) = cleanPath a := by
  have head : (a ++ [slash]).head? = a.head? := by
    cases a with
    | nil => exact absurd rfl some
    | cons b bs => rfl
  have pieces : ∀ rooted, (splitSlash (a ++ [slash])).foldl (cleanStep rooted) [] =
      (splitSlash a).foldl (cleanStep rooted) [] := by
    intro rooted
    rw [splitSlash_concat, List.foldl_append]
    exact cleanStep_nil rooted _
  rw [cleanPath, cleanPath, head, pieces]

/-- **The parent drops the last name.** -/
theorem dirPath_pathOf (proper : ∀ d ∈ a, IsName d) (name : IsName c) :
    dirPath (pathOf (a ++ [c])) = pathOf a := by
  rw [dirPath, pathOf_append_name, upToSlash_concat _ name.2.2.2]
  by_cases root : a = []
  · rw [root]
    decide
  · rw [← pathOf_of_ne root, cleanPath_trailing (pathOf_ne_nil a), cleanPath_pathOf proper]

theorem dirPath_root : dirPath (pathOf []) = pathOf [] := by decide

/-- The ancestors of a path are its front parts. -/
theorem dirPath_iterate (proper : ∀ c ∈ names, IsName c) (k : Nat) :
    dirPath^[k] (pathOf names) = pathOf (names.take (names.length - k)) := by
  induction k with
  | zero => rw [Function.iterate_zero, id, Nat.sub_zero, List.take_length]
  | succ k ih =>
    rw [Function.iterate_succ_apply', ih]
    rcases Nat.eq_zero_or_pos (names.length - k) with top | below
    · rw [top, show names.length - (k + 1) = 0 by omega, List.take_zero, dirPath_root]
    · have inside : names.length - k - 1 < names.length := by omega
      rw [show names.length - k = names.length - k - 1 + 1 by omega, List.take_succ_eq_append_getElem inside,
        dirPath_pathOf (fun c mem => proper c (List.mem_of_mem_take mem)) (proper _ (List.getElem_mem inside)),
        Nat.sub_sub]

/-! ## The walk to the parents ends -/

/-- The bytes of the components, with a separator each. -/
def breadth (pieces : List Bytes) : Nat := (pieces.map fun c => c.length + 1).sum

theorem breadth_cons (c : Bytes) (pieces : List Bytes) : breadth (c :: pieces) = c.length + 1 + breadth pieces := by
  rw [breadth, List.map_cons, List.sum_cons]
  rfl

theorem breadth_splitSlash (s : Bytes) : breadth (splitSlash s) = s.length + 1 := by
  induction s with
  | nil => rfl
  | cons b bs ih =>
    rw [splitSlash]
    split
    · rw [breadth_cons, ih, List.length_nil, List.length_cons]
      omega
    · cases pieces : splitSlash bs with
      | nil => exact absurd pieces (splitSlash_ne_nil bs)
      | cons c cs =>
        rw [pieces, breadth_cons] at ih
        rw [breadth_cons, List.length_cons, List.length_cons]
        omega

theorem breadth_cleanStep (rooted : Bool) (kept : List Bytes) (c : Bytes) :
    breadth (cleanStep rooted kept c) ≤ breadth kept + (c.length + 1) := by
  rw [cleanStep.eq_def]
  split
  · omega
  · split
    · cases kept with
      | nil =>
        cases rooted with
        | true => exact Nat.zero_le _
        | false =>
          change breadth [c] ≤ _
          rw [breadth_cons]
          omega
      | cons top rest =>
        dsimp only
        split
        · rw [breadth_cons c]
          omega
        · rw [breadth_cons top]
          omega
    · rw [breadth_cons c]
      omega

theorem breadth_foldl (rooted : Bool) (pieces : List Bytes) : ∀ kept,
    breadth (pieces.foldl (cleanStep rooted) kept) ≤ breadth kept + breadth pieces := by
  induction pieces with
  | nil => exact fun _ => le_rfl
  | cons c pieces ih =>
    intro kept
    have step := breadth_cleanStep rooted kept c
    have rest := ih (cleanStep rooted kept c)
    rw [List.foldl_cons, breadth_cons]
    omega

theorem breadth_reverse (pieces : List Bytes) : breadth pieces.reverse = breadth pieces := by
  rw [breadth, breadth, List.map_reverse, List.sum_reverse]

theorem intercalate_length_le (pieces : List Bytes) :
    (List.intercalate [slash] pieces).length ≤ breadth pieces - 1 := by
  induction pieces with
  | nil => exact Nat.zero_le _
  | cons c pieces ih =>
    cases pieces with
    | nil => simp [List.intercalate, breadth]
    | cons d pieces =>
      rw [breadth_cons] at ih
      rw [intercalate_cons_cons, List.length_append, List.length_cons, breadth_cons, breadth_cons]
      omega

/-- Cleaning does not make a path longer. -/
theorem cleanPath_length_le (some : p ≠ []) : (cleanPath p).length ≤ p.length := by
  have positive : 0 < p.length := List.length_pos_iff.mpr some
  have text := intercalate_length_le ((splitSlash p).foldl (cleanStep (p.head? == Option.some slash)) []).reverse
  rw [breadth_reverse] at text
  rw [cleanPath]
  split
  · rename_i rooted
    rw [rooted] at text ⊢
    obtain ⟨rest, rfl⟩ : ∃ rest, p = slash :: rest := by
      cases p with
      | nil => exact absurd rfl some
      | cons b rest => exact ⟨rest, by rw [Option.some.inj (eq_of_beq rooted)]⟩
    -- the piece before the first slash is skipped
    rw [splitSlash, if_pos rfl, List.foldl_cons, cleanStep_nil] at text ⊢
    have kept := breadth_foldl true (splitSlash rest) []
    rw [breadth_splitSlash] at kept
    change _ ≤ 0 + _ at kept
    rw [List.length_cons, List.length_cons]
    omega
  · have kept := breadth_foldl (p.head? == Option.some slash) (splitSlash p) []
    rw [breadth_splitSlash] at kept
    change _ ≤ 0 + _ at kept
    split
    · exact positive
    · omega

/-- The length of a path, but the current directory is last of all. -/
def weigh (p : Bytes) : Nat := if p = lit "." then 0 else p.length + 1

/-- **A step to a parent that is another path goes down.** -/
theorem dirPath_weigh (moved : dirPath p ≠ p) : weigh (dirPath p) < weigh p := by
  have least : ∀ q : Bytes, weigh q ≤ q.length + 1 := fun q => by
    unfold weigh
    split <;> omega
  by_cases sep : slash ∈ p
  · obtain ⟨back, front, split, plain⟩ := List.eq_append_cons_of_mem (List.mem_reverse.mpr sep)
    have whole : p = front.reverse ++ slash :: back.reverse := by
      rw [← List.reverse_reverse p, split]
      simp
    have plain' : slash ∉ back.reverse := fun mem => plain (List.mem_reverse.mp mem)
    have up : dirPath p = cleanPath (front.reverse ++ [slash]) := by
      rw [dirPath, whole, upToSlash_concat _ plain']
    have other : p ≠ lit "." := by
      rintro rfl
      exact absurd sep (by decide)
    have size : p.length = front.reverse.length + (back.reverse.length + 1) := by
      rw [whole, List.length_append, List.length_cons]
    have heavy : weigh p = p.length + 1 := if_neg other
    by_cases root : front.reverse = []
    · -- below the root: the parent is the root, and the path is not
      have slashed : dirPath p = [slash] := by
        rw [up, root]
        decide
      have longer : back.reverse ≠ [] := by
        intro empty
        rw [root, empty] at whole
        exact moved (slashed.trans whole.symm)
      have positive := List.length_pos_iff.mpr longer
      have light := least (dirPath p)
      rw [slashed] at light ⊢
      change _ ≤ 1 + 1 at light
      omega
    · have shorter := cleanPath_length_le root
      have light := least (dirPath p)
      rw [up, cleanPath_trailing root] at light ⊢
      omega
  · have dot : dirPath p = lit "." := by
      rw [dirPath, upToSlash_plain sep]
      decide
    rw [dot] at moved ⊢
    have heavy : weigh p = p.length + 1 := if_neg (Ne.symm moved)
    rw [heavy]
    exact Nat.succ_pos _

end Microfat.Theory
