/-
# Microfat.Theory.Errors — error trees and `errors.Is`

An error value is a tree.  Its leaves are sentinels, compared by identity, and
texts without identity (`errors.New` at a return statement).  An inner node is
a formatted error: a message template and the errors it wraps with `%w`.
Errors it only prints (`%v`) are part of the message and are invisible to
`errors.Is`, so they are kept apart.

`GoError.is` is `errors.Is`: depth-first over the wrapped errors.  `S` is the
type of sentinel identities of a program; `same s t` says that the sentinel `s`
answers to the target `t`, which for most sentinels is equality and for system
error numbers includes the portable classes they report.
-/
import Microfat.Theory.Bytes

namespace Microfat.Theory

set_option autoImplicit false

/-- One piece of a message template.  `cause` and `shown` stand for the next
wrapped or printed error. -/
inductive Part where
  | text (s : String)
  | str (s : Bytes)
  | strs (l : List Bytes)
  | quoted (s : Bytes)
  | int (v : Int)
  | hex (s : Bytes)
  | oct (v : Nat)
  | hexInt (v : Nat)
  | cause
  | shown
  deriving DecidableEq, Repr

inductive GoError (S : Type) where
  | sentinel (s : S)
  | errorf (message : List Part) (causes shown : List (GoError S))

namespace GoError

variable {S : Type}

/-- `errors.New` without an identity of its own. -/
def new (s : String) : GoError S := .errorf [.text s] [] []

/-- `fmt.Errorf("%w: …", s, …)` around one sentinel. -/
def about (s : S) (message : List Part) : GoError S :=
  .errorf (.cause :: .text ": " :: message) [.sentinel s] []

/-- `fmt.Errorf` that wraps the given errors. -/
def wrap (message : List Part) (causes : List (GoError S)) : GoError S :=
  .errorf message causes []

/-- `errors.Join`: nothing when nothing failed. -/
def join (errs : List (Option (GoError S))) : Option (GoError S) :=
  match errs.filterMap id with
  | [] => none
  | causes => some (.wrap ((causes.map fun _ => Part.cause).intersperse (.text "\n")) causes)

theorem join_eq_none {errs : List (Option (GoError S))} : join errs = none ↔ ∀ e ∈ errs, e = none := by
  rw [join]
  split
  · rename_i none
    exact iff_of_true rfl fun e mem => by simpa using List.filterMap_eq_nil_iff.mp none e mem
  · rename_i some
    refine iff_of_false (by simp) fun all => some ?_
    exact List.filterMap_eq_nil_iff.mpr fun e mem => by simpa using all e mem

section Is

variable (same : S → S → Bool)

mutual

def is (target : S) : GoError S → Bool
  | .sentinel s => same s target
  | .errorf _ causes _ => isAny target causes

def isAny (target : S) : List (GoError S) → Bool
  | [] => false
  | e :: es => is target e || isAny target es

end

variable {same}

@[simp] theorem is_sentinel (s target : S) :
    (GoError.sentinel s).is same target = same s target := by
  simp [is]

@[simp] theorem is_errorf (message : List Part) (causes shown : List (GoError S)) (target : S) :
    (GoError.errorf message causes shown).is same target = causes.any (is same target) := by
  have any_eq : ∀ es : List (GoError S), isAny same target es = es.any (is same target) := by
    intro es
    induction es with
    | nil => rfl
    | cons e es ih => simp [isAny, ih]
  rw [is, any_eq]

@[simp] theorem is_new (s : String) (target : S) : (new s : GoError S).is same target = false := by
  simp [new]

@[simp] theorem is_about (s target : S) (message : List Part) :
    (about s message).is same target = same s target := by
  simp [about]

@[simp] theorem is_wrap (message : List Part) (causes : List (GoError S)) (target : S) :
    (wrap message causes).is same target = causes.any (is same target) := by
  simp [wrap]

end Is

end GoError

end Microfat.Theory
