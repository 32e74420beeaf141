/-
# Microfat.Install.Types — what the installer and its archives share

The installed products and the bound on one of them, the pattern of a release version,
the owner record that claims a store and the metadata of one generation.  A map of files
is its entries with distinct names.
-/
import Microfat.Theory.Json
import Microfat.Sentinels

namespace Microfat.Install

open Theory

set_option autoImplicit false

def maxFileBytes : Int := 250 * 1024 * 1024

/-- `Products`: the complete installed executable set. -/
def products : List Bytes := [lit "microfat", lit "microfat-stub", lit "microfat-stub-minimal"]

/-- `0|[1-9][0-9]*`. -/
def isNumeral (s : Bytes) : Bool :=
  s == lit "0" || (s != [] && s.all Json.isDigit && s.head? != some 48)

/-- `versionPattern`. -/
def isVersion (s : Bytes) : Bool :=
  match s.splitOn 46 with
  | [a, b, c] => isNumeral a && isNumeral b && isNumeral c
  | _ => false

structure Owner where
  schema : Int
  kind : Bytes
  id : Bytes
  uid : Int
  bin : Bytes
  store : Bytes
  deriving DecidableEq, Repr

structure File where
  size : Int
  sha256 : Bytes
  deriving DecidableEq, Repr

/-- `map[string]File`. -/
structure Files where
  entries : List (Bytes × File)
  distinct : (entries.map Prod.fst).Nodup
  deriving DecidableEq

structure Generation where
  schema : Int
  id : Bytes
  version : Bytes
  arch : Bytes
  archiveSHA256 : Bytes
  files : Files
  deriving DecidableEq

theorem lookup_of_distinct {entries : List (Bytes × File)} (distinct : (entries.map Prod.fst).Nodup)
    {e : Bytes × File} (mem : e ∈ entries) : entries.lookup e.1 = some e.2 := by
  induction entries with
  | nil => cases mem
  | cons first rest ih =>
    rw [List.map_cons, List.nodup_cons] at distinct
    rcases List.mem_cons.mp mem with rfl | older
    · simp [List.lookup]
    · have other : (e.1 == first.1) = false := by
        rw [beq_eq_false_iff_ne]
        intro same
        exact distinct.1 (same ▸ List.mem_map_of_mem older)
      rw [List.lookup, other]
      exact ih distinct.2 older

end Microfat.Install
