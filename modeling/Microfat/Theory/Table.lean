/-
# Microfat.Theory.Table — a list of entries with an index of its keys

A program that rewrites a list of `key=value` entries keeps a map from keys to
positions beside it.  `Indexed` ties the two together: the index of a key is where
the entry with that key is, so a key occurs once.  Putting an entry in
(`Indexed.put`) and keeping one that has no key (`Indexed.keep`) preserve it.

* `find_put`: looking a key up after a put;
* `put_behind`: entries in front that do not have the key stay where they are;
* `entries_foldl_inherit`: taking the entries of a list over one after the other
  leaves each key at its first position with its last entry (`settle`);
* `mem_settle`, `settle_keyless`, `settle_keys`: what such a list holds.
-/
import Mathlib

namespace Microfat.Theory

set_option autoImplicit false

structure Table (E K : Type) where
  entries : List E
  index : K → Option Nat

theorem getElem?_concat_iff {E : Type} {l : List E} {i : Nat} {e e' : E} :
    (l ++ [e])[i]? = some e' ↔ l[i]? = some e' ∨ i = l.length ∧ e' = e := by
  rcases Nat.lt_trichotomy i l.length with inside | rfl | outside
  · rw [List.getElem?_append_left inside]
    simp [inside.ne]
  · simp [eq_comm]
  · rw [List.getElem?_eq_none (by simp; omega), List.getElem?_eq_none outside.le]
    simp [outside.ne']

namespace Table

variable {E K : Type}

def empty : Table E K := ⟨[], fun _ => none⟩

/-- Overwrite the entry of the key, or append it. -/
def put [DecidableEq K] (t : Table E K) (k : K) (e : E) : Table E K :=
  match t.index k with
  | some i => { t with entries := t.entries.set i e }
  | none => ⟨t.entries ++ [e], Function.update t.index k (some t.entries.length)⟩

/-- Append an entry that has no key. -/
def keep (t : Table E K) (e : E) : Table E K := { t with entries := t.entries ++ [e] }

def find (t : Table E K) (k : K) : Option E := (t.index k).bind (t.entries[·]?)

variable (key : E → Option K)

/-- The index of a key is where the entry with that key is. -/
def Indexed (t : Table E K) : Prop :=
  ∀ k i, t.index k = some i ↔ ∃ e, t.entries[i]? = some e ∧ key e = some k

/-- What the index says is there; other entries may have the key too. -/
def Sound (t : Table E K) : Prop :=
  ∀ k i, t.index k = some i → ∃ e, t.entries[i]? = some e ∧ key e = some k

variable {key} {t : Table E K} {k k' : K} {e : E}

theorem Indexed.sound (h : t.Indexed key) : t.Sound key := fun k i => (h k i).mp

theorem indexed_empty : (empty : Table E K).Indexed key := by
  intro k i
  simp [empty]

namespace Sound

theorem find_keep (h : t.Sound key) : (t.keep e).find k = t.find k := by
  rw [find, find, Table.keep]
  cases place : t.index k with
  | none => rfl
  | some i =>
    obtain ⟨old, here, -⟩ := h k i place
    exact List.getElem?_append_left (List.getElem?_eq_some_iff.mp here).1

/-- **Looking a key up after a put.** -/
theorem find_put [DecidableEq K] (h : t.Sound key) :
    (t.put k e).find k' = if k' = k then some e else t.find k' := by
  rw [Table.put, find, find]
  split
  · rename_i j place
    obtain ⟨old, there, oldKey⟩ := h k j place
    have inside := (List.getElem?_eq_some_iff.mp there).1
    dsimp only
    split
    · rename_i same
      rw [same, place]
      exact List.getElem?_set_self inside
    · rename_i different
      cases place' : t.index k' with
      | none => rfl
      | some i =>
        have apart : j ≠ i := by
          rintro rfl
          obtain ⟨other, here, also⟩ := h k' j place'
          rw [there] at here
          cases here
          rw [oldKey] at also
          exact different (Option.some.inj also).symm
        exact List.getElem?_set_ne apart
  · dsimp only
    split
    · rename_i same
      rw [same, Function.update_self]
      simp
    · rename_i different
      rw [Function.update_of_ne different]
      cases place' : t.index k' with
      | none => rfl
      | some i =>
        obtain ⟨other, here, -⟩ := h k' i place'
        exact List.getElem?_append_left (List.getElem?_eq_some_iff.mp here).1

theorem put [DecidableEq K] (h : t.Sound key) (keyed : key e = some k) : (t.put k e).Sound key := by
  intro k' i there
  rw [Table.put] at there ⊢
  cases place : t.index k with
  | some j =>
    obtain ⟨old, here, oldKey⟩ := h k j place
    rw [place] at there
    obtain ⟨e', here', keyed'⟩ := h k' i there
    by_cases same : j = i
    · subst same
      rw [here] at here'
      cases here'
      exact ⟨e, List.getElem?_set_self (List.getElem?_eq_some_iff.mp here).1, by rw [keyed, ← oldKey, keyed']⟩
    · exact ⟨e', (List.getElem?_set_ne same).trans here', keyed'⟩
  | none =>
    rw [place] at there
    dsimp only at there ⊢
    simp only [getElem?_concat_iff]
    by_cases same : k' = k
    · subst same
      rw [Function.update_self, Option.some.injEq] at there
      exact ⟨e, .inr ⟨there.symm, rfl⟩, keyed⟩
    · rw [Function.update_of_ne same] at there
      obtain ⟨e', here', keyed'⟩ := h k' i there
      exact ⟨e', .inl here', keyed'⟩

end Sound

namespace Indexed

section

variable (h : t.Indexed key)

include h

theorem unique {i j : Nat} {e e' : E} (first : t.entries[i]? = some e) (second : t.entries[j]? = some e')
    (keyed : key e = some k) (same : key e' = some k) : i = j := by
  have here := (h k i).mpr ⟨e, first, keyed⟩
  rw [(h k j).mpr ⟨e', second, same⟩] at here
  exact (Option.some.inj here).symm

/-- **A key occurs once.** -/
theorem nodup : (t.entries.filterMap key).Nodup := by
  rw [List.nodup_iff_pairwise_ne, List.pairwise_filterMap, List.pairwise_iff_getElem]
  intro i j hi hj before k keyed k' keyed' same
  subst same
  have both := h.unique (List.getElem?_eq_getElem hi) (List.getElem?_eq_getElem hj) keyed keyed'
  omega

theorem find_eq_some : t.find k = some e ↔ e ∈ t.entries ∧ key e = some k := by
  rw [find, Option.bind_eq_some_iff]
  constructor
  · rintro ⟨i, place, found⟩
    obtain ⟨e', here, keyed⟩ := (h k i).mp place
    rw [here] at found
    cases found
    exact ⟨List.mem_of_getElem? here, keyed⟩
  · rintro ⟨mem, keyed⟩
    obtain ⟨i, here⟩ := List.mem_iff_getElem?.mp mem
    exact ⟨i, (h k i).mpr ⟨e, here, keyed⟩, here⟩

/-- Whatever picks an entry of the key, where there is one, picks the one that is found. -/
theorem eq_find {picked : Option E} (holds : ∀ e, picked = some e → e ∈ t.entries ∧ key e = some k)
    (absent : picked = none → ∀ e ∈ t.entries, key e ≠ some k) : picked = t.find k := by
  cases picked with
  | some e => exact (h.find_eq_some.mpr (holds e rfl)).symm
  | none =>
    refine (Option.eq_none_iff_forall_ne_some.mpr fun e found => ?_).symm
    obtain ⟨mem, keyed⟩ := h.find_eq_some.mp found
    exact absent rfl e mem keyed

theorem find?_entries [DecidableEq K] : t.entries.find? (fun e => key e = some k) = t.find k :=
  h.eq_find (fun _ found => ⟨List.mem_of_find?_eq_some found, by simpa using List.find?_some found⟩)
    fun missed e mem => by simpa using List.find?_eq_none.mp missed e mem

/-- A key without an index has no entry. -/
theorem index_eq_none : t.index k = none ↔ ∀ e ∈ t.entries, key e ≠ some k := by
  constructor
  · intro none e mem keyed
    obtain ⟨i, here⟩ := List.mem_iff_getElem?.mp mem
    rw [(h k i).mpr ⟨e, here, keyed⟩] at none
    cases none
  · intro absent
    cases place : t.index k with
    | none => rfl
    | some i =>
      obtain ⟨e, here, keyed⟩ := (h k i).mp place
      exact absurd keyed (absent e (List.mem_of_getElem? here))

theorem keep (keyless : key e = none) : (t.keep e).Indexed key := by
  intro k i
  rw [Table.keep, h k i]
  simp only [getElem?_concat_iff]
  constructor
  · rintro ⟨e', here, keyed⟩
    exact ⟨e', .inl here, keyed⟩
  · rintro ⟨e', here | ⟨-, rfl⟩, keyed⟩
    · exact ⟨e', here, keyed⟩
    · rw [keyless] at keyed
      cases keyed

end

variable [DecidableEq K]

theorem put (h : t.Indexed key) (keyed : key e = some k) : (t.put k e).Indexed key := by
  intro k' i
  rw [Table.put]
  split
  · -- the entry at `j` gives way to one with the same key
    rename_i j place
    obtain ⟨old, there, oldKey⟩ := (h k j).mp place
    have inside := (List.getElem?_eq_some_iff.mp there).1
    dsimp only
    rw [h k' i]
    by_cases same : i = j
    · subst same
      rw [there, List.getElem?_set_self inside]
      constructor
      · rintro ⟨_, ⟨⟩, also⟩
        exact ⟨e, rfl, by rw [keyed, ← oldKey, also]⟩
      · rintro ⟨_, ⟨⟩, also⟩
        exact ⟨old, rfl, by rw [oldKey, ← keyed, also]⟩
    · rw [List.getElem?_set_ne (Ne.symm same)]
  · rename_i fresh
    dsimp only
    simp only [getElem?_concat_iff]
    by_cases same : k' = k
    · subst same
      rw [Function.update_self, Option.some.injEq]
      constructor
      · rintro rfl
        exact ⟨e, .inr ⟨rfl, rfl⟩, keyed⟩
      · rintro ⟨e', here | ⟨last, -⟩, also⟩
        · exact absurd also (h.index_eq_none.mp fresh e' (List.mem_of_getElem? here))
        · exact last.symm
    · rw [Function.update_of_ne same, h k' i]
      constructor
      · rintro ⟨e', here, also⟩
        exact ⟨e', .inl here, also⟩
      · rintro ⟨e', here | ⟨-, rfl⟩, also⟩
        · exact ⟨e', here, also⟩
        · rw [keyed] at also
          exact absurd (Option.some.inj also).symm same

/-- **What is in front and has other keys stays.** -/
theorem put_behind (h : t.Indexed key) {front back : List E} (split : t.entries = front ++ back)
    (others : ∀ e ∈ front, key e ≠ some k) :
    ∃ back', (t.put k e).entries = front ++ back' ∧ ∀ x ∈ back', x = e ∨ x ∈ back := by
  rw [Table.put]
  cases place : t.index k with
  | none => exact ⟨back ++ [e], by rw [split, List.append_assoc], by simp [or_comm]⟩
  | some i =>
    obtain ⟨old, here, oldKey⟩ := (h k i).mp place
    have behind : front.length ≤ i := by
      by_contra inside
      rw [split, List.getElem?_append_left (by omega)] at here
      exact others old (List.mem_of_getElem? here) oldKey
    refine ⟨back.set (i - front.length) e, ?_, fun x mem => (List.mem_or_eq_of_mem_set mem).symm⟩
    dsimp only
    rw [split, List.set_append_right _ _ behind]

end Indexed

/-! ## Taking over a list -/

section

variable (key) (dropped : K → Bool)

/-- Take an entry over: one without a key as it is, one with a key in the place of an
earlier one, and one whose key is dropped not at all. -/
def inherit [DecidableEq K] (t : Table E K) (e : E) : Table E K :=
  match key e with
  | none => t.keep e
  | some k => if dropped k then t else t.put k e

variable [DecidableEq K]

/-- The last entry with the key. -/
def lastOf (k : K) (l : List E) : Option E := (l.filter fun e => key e = some k).getLast?

/-- The entries without a key, and each key that is not dropped where it occurs first,
with its last entry. -/
def settle : List K → List E → List E
  | _, [] => []
  | seen, e :: rest =>
    match key e with
    | none => e :: settle seen rest
    | some k =>
      if dropped k || k ∈ seen then settle seen rest
      else (lastOf key k rest).getD e :: settle (k :: seen) rest

/-- What becomes of an entry when `rest` is taken over after it. -/
def latest (rest : List E) (e : E) : E :=
  match key e with
  | none => e
  | some k => (lastOf key k rest).getD e

end

section

variable [DecidableEq K] {dropped : K → Bool} {rest : List E} {seen : List K}

theorem lastOf_cons : lastOf key k (e :: rest) = (lastOf key k rest).or (if key e = some k then some e else none) := by
  rw [lastOf, lastOf, List.filter_cons]
  by_cases same : key e = some k
  · rw [if_pos (by simpa using same), if_pos same, List.getLast?_cons]
    cases (rest.filter fun e => key e = some k).getLast? <;> rfl
  · rw [if_neg (by simpa using same), if_neg same, Option.or_none]

theorem lastOf_key (found : lastOf key k rest = some e) : e ∈ rest ∧ key e = some k := by
  have mem := List.mem_of_getLast? found
  rw [List.mem_filter, decide_eq_true_eq] at mem
  exact mem

theorem lastOf_map {D : Type} (f : D → E) (l : List D) :
    lastOf key k (l.map f) = (lastOf (fun x => key (f x)) k l).map f := by
  rw [lastOf, lastOf, List.filter_map, List.getLast?_map]
  rfl

theorem lastOf_eq_none : lastOf key k rest = none ↔ ∀ e ∈ rest, key e ≠ some k := by
  rw [lastOf, List.getLast?_eq_none_iff, List.filter_eq_nil_iff]
  simp

theorem Indexed.lastOf_entries (h : t.Indexed key) : lastOf key k t.entries = t.find k :=
  h.eq_find (fun _ => lastOf_key) lastOf_eq_none.mp

theorem getD_lastOf_key (rest : List E) (keyed : key e = some k) : key ((lastOf key k rest).getD e) = some k := by
  cases last : lastOf key k rest with
  | none => exact keyed
  | some x => exact (lastOf_key last).2

theorem latest_cons {x : E} (other : key x ≠ key e ∨ key x = none) : latest key (e :: rest) x = latest key rest x := by
  cases keyed : key x with
  | none => simp [latest, keyed]
  | some k =>
    have apart : key e ≠ some k := by
      rcases other with different | none
      · rw [keyed] at different
        exact Ne.symm different
      · rw [keyed] at none
        cases none
    simp only [latest, keyed, lastOf_cons, if_neg apart, Option.or_none]

theorem Indexed.inherit (h : t.Indexed key) (e : E) : (t.inherit key dropped e).Indexed key := by
  rw [Table.inherit]
  split
  · rename_i keyless
    exact h.keep keyless
  · rename_i k keyed
    split
    · exact h
    · exact h.put keyed

theorem Indexed.foldl_inherit (h : t.Indexed key) (l : List E) :
    (l.foldl (Table.inherit key dropped) t).Indexed key :=
  List.foldlRecOn (motive := fun t : Table E K => t.Indexed key) l _ h fun _ h e _ => h.inherit e

/-- Dropped entries change nothing. -/
theorem foldl_inherit_filter (t : Table E K) (l : List E) :
    (l.filter fun e => !((key e).any dropped)).foldl (Table.inherit key dropped) t =
      l.foldl (Table.inherit key dropped) t := by
  induction l generalizing t with
  | nil => rfl
  | cons e rest ih =>
    by_cases gone : (key e).any dropped = true
    · have unchanged : t.inherit key dropped e = t := by
        rw [Table.inherit]
        cases keyed : key e with
        | none => simp [keyed] at gone
        | some k => exact if_pos (by simpa [keyed] using gone)
      rw [List.filter_cons_of_neg (by simp [gone]), List.foldl_cons, unchanged, ih]
    · rw [List.filter_cons_of_pos (by simp [gone]), List.foldl_cons, List.foldl_cons, ih]

/-- **Each key stays where it came first and ends with its last entry.** -/
theorem Indexed.entries_foldl_inherit (h : t.Indexed key) (l : List E)
    (known : ∀ k, k ∈ seen ↔ t.index k ≠ none) (kept : ∀ k ∈ seen, dropped k = false) :
    (l.foldl (Table.inherit key dropped) t).entries = t.entries.map (latest key l) ++ settle key dropped seen l := by
  induction l generalizing t seen with
  | nil =>
    have same : latest key ([] : List E) = id := by
      funext x
      rw [latest]
      split <;> rfl
    simp [settle, same]
  | cons e rest ih =>
    rw [List.foldl_cons, settle]
    cases keyed : key e with
    | none =>
      have known' : ∀ k, k ∈ seen ↔ (t.keep e).index k ≠ none := known
      have first : t.inherit key dropped e = t.keep e := by rw [Table.inherit, keyed]
      have unchanged : latest key (e :: rest) = latest key rest := by
        funext x
        by_cases none : key x = none
        · exact latest_cons (.inr none)
        · exact latest_cons (.inl (by rwa [keyed]))
      have own : latest key rest e = e := by rw [latest, keyed]
      rw [first, ih (h.keep keyed) known' kept, unchanged, Table.keep]
      simp [own]
    | some k =>
      by_cases gone : dropped k = true
      · have first : t.inherit key dropped e = t := by simp [Table.inherit, keyed, gone]
        rw [first, ih h known kept]
        simp only [gone, Bool.true_or, if_true]
        congr 1
        refine List.map_congr_left fun x mem => (latest_cons (.inl fun same => ?_)).symm
        rw [keyed] at same
        obtain ⟨i, here⟩ := List.mem_iff_getElem?.mp mem
        have there := (h k i).mpr ⟨x, here, same⟩
        have inside := (known k).mpr (by rw [there]; simp)
        rw [kept k inside] at gone
        cases gone
      · have first : t.inherit key dropped e = t.put k e := by simp [Table.inherit, keyed, gone]
        have stays : dropped k = false := by simpa using gone
        have own : latest key rest e = (lastOf key k rest).getD e := by rw [latest, keyed]
        rw [first]
        cases place : t.index k with
        | some i =>
          have inside : k ∈ seen := (known k).mpr (by rw [place]; simp)
          have put : t.put k e = { t with entries := t.entries.set i e } := by rw [Table.put, place]
          have known' : ∀ k', k' ∈ seen ↔ (t.put k e).index k' ≠ none := by
            rw [put]
            exact known
          rw [ih (h.put keyed) known' kept, put]
          dsimp only
          rw [if_pos (by simp [inside])]
          congr 1
          obtain ⟨old, there, oldKey⟩ := (h k i).mp place
          refine List.ext_getElem? fun j => ?_
          rw [List.getElem?_map, List.getElem?_map]
          by_cases same : i = j
          · subst same
            rw [List.getElem?_set_self (List.getElem?_eq_some_iff.mp there).1, there]
            rw [Option.map_some, Option.map_some, own]
            simp only [latest, oldKey, lastOf_cons, if_pos keyed]
            cases lastOf key k rest <;> rfl
          · rw [List.getElem?_set_ne same]
            cases here : t.entries[j]? with
            | none => rfl
            | some x =>
              refine congrArg some (latest_cons (.inl fun also => same ?_)).symm
              exact h.unique there here oldKey (also.trans keyed)
        | none =>
          have outside : k ∉ seen := fun mem => (known k).mp mem place
          have put : t.put k e =
              ⟨t.entries ++ [e], Function.update t.index k (some t.entries.length)⟩ := by
            rw [Table.put, place]
          have known' : ∀ k', k' ∈ k :: seen ↔ (t.put k e).index k' ≠ none := by
            intro k'
            rw [put, List.mem_cons]
            dsimp only
            by_cases same : k' = k
            · simp [same]
            · rw [Function.update_of_ne same, ← known k']
              simp [same]
          rw [ih (h.put keyed) known' (List.forall_mem_cons.mpr ⟨stays, kept⟩), put]
          dsimp only
          rw [if_neg (by simp [stays, outside]), List.map_append, List.map_singleton, own, List.append_assoc,
            List.singleton_append]
          congr 1
          refine List.map_congr_left fun x mem => (latest_cons (.inl ?_)).symm
          rw [keyed]
          exact h.index_eq_none.mp place x mem

/-- What is found after taking a list over. -/
theorem Indexed.find_foldl_inherit (h : t.Indexed key) (l : List E) (stays : dropped k = false) :
    (l.foldl (Table.inherit key dropped) t).find k = (lastOf key k l).or (t.find k) := by
  induction l generalizing t with
  | nil => rfl
  | cons e rest ih =>
    rw [List.foldl_cons, ih (h.inherit e), lastOf_cons, Option.or_assoc]
    congr 1
    rw [Table.inherit]
    cases keyed : key e with
    | none =>
      rw [if_neg (by simp), Option.none_or]
      exact h.sound.find_keep
    | some k' =>
      dsimp only
      by_cases same : k = k'
      · subst same
        rw [if_neg (by simp [stays]), h.sound.find_put, if_pos rfl, if_pos rfl, Option.some_or]
      · rw [if_neg (fun also => same (Option.some.inj also).symm), Option.none_or]
        split
        · rfl
        · rw [h.sound.find_put, if_neg same]

/-! ## What a settled list holds -/

theorem mem_settle (l : List E) (mem : e ∈ settle key dropped seen l) :
    key e = none ∧ e ∈ l ∨ ∃ k, key e = some k ∧ dropped k = false ∧ k ∉ seen ∧ lastOf key k l = some e := by
  induction l generalizing seen with
  | nil => cases mem
  | cons x rest ih =>
    rw [settle] at mem
    -- an entry of a later key is last in the longer list too
    have later : ∀ {seen' : List K}, (∀ k, k ∈ seen → k ∈ seen') → e ∈ settle key dropped seen' rest →
        key e = none ∧ e ∈ x :: rest ∨
          ∃ k, key e = some k ∧ dropped k = false ∧ k ∉ seen ∧ lastOf key k (x :: rest) = some e := by
      intro seen' grown inside
      rcases ih inside with ⟨keyless, here⟩ | ⟨k, keyed, stays, fresh, last⟩
      · exact .inl ⟨keyless, List.mem_cons_of_mem _ here⟩
      · exact .inr ⟨k, keyed, stays, fun old => fresh (grown k old), by rw [lastOf_cons, last, Option.some_or]⟩
    cases keyed : key x with
    | none =>
      rw [keyed] at mem
      rcases List.mem_cons.mp mem with rfl | inside
      · exact .inl ⟨keyed, List.mem_cons_self⟩
      · exact later (fun _ => id) inside
    | some k =>
      rw [keyed] at mem
      dsimp only at mem
      split at mem
      · exact later (fun _ => id) mem
      · rename_i taken
        simp only [Bool.or_eq_true, decide_eq_true_eq, not_or, Bool.not_eq_true] at taken
        rcases List.mem_cons.mp mem with rfl | inside
        · refine .inr ⟨k, getD_lastOf_key rest keyed, taken.1, taken.2, ?_⟩
          rw [lastOf_cons, if_pos keyed]
          cases lastOf key k rest <;> rfl
        · exact later (fun _ => List.mem_cons_of_mem _) inside

theorem settle_keyless (l : List E) :
    (settle key dropped seen l).filter (fun e => (key e).isNone) = l.filter fun e => (key e).isNone := by
  induction l generalizing seen with
  | nil => rfl
  | cons x rest ih =>
    rw [settle]
    cases keyed : key x with
    | none => simp [keyed, ih]
    | some k =>
      have same := getD_lastOf_key rest keyed
      dsimp only
      split <;> simp [keyed, same, ih]

/-- The keys of a settled list, each where it occurs first. -/
theorem settle_keys [BEq K] [LawfulBEq K] (l : List E) :
    (settle key dropped seen l).filterMap key =
      ((l.filterMap key).filter fun k => !dropped k && k ∉ seen).eraseDups := by
  induction l generalizing seen with
  | nil => simp [settle]
  | cons x rest ih =>
    rw [settle]
    cases keyed : key x with
    | none => simp [keyed, ih]
    | some k =>
      have same := getD_lastOf_key rest keyed
      rw [List.filterMap_cons_some keyed]
      dsimp only
      split
      · rename_i gone
        rw [ih, List.filter_cons_of_neg (by simpa [or_iff_not_imp_left] using gone)]
      · rename_i taken
        rw [List.filterMap_cons_some same, ih, List.filter_cons_of_pos (by simpa using taken),
          List.eraseDups_cons, List.filter_filter]
        congr 2
        refine List.filter_congr fun k' _ => ?_
        by_cases also : k' = k <;> simp [also]

end

end Table

end Microfat.Theory
