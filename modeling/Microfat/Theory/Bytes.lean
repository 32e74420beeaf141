/-
# Microfat.Theory.Bytes — byte strings, little-endian words, hexadecimal text

A byte string is a list of bytes; it stands for both `[]byte` and `string`,
which hold arbitrary bytes.  This module fixes the three encodings a binary
container needs:

* `leBytes n v` / `leNat`: fixed-width little-endian words, inverse to each other
  on values that fit (`leNat_leBytes`) and on words (`leBytes_leNat`);
* `putUint64` / `uint64`: the 64-bit instance, with the signed reading `int64`;
* `hexEncode`: lower-case hexadecimal, two digits a byte.
-/
import Mathlib

namespace Microfat.Theory

set_option autoImplicit false

abbrev Bytes := List UInt8

instance Bytes.lawfulBEq : LawfulBEq Bytes := inferInstanceAs (LawfulBEq (List UInt8))

/-- A byte-string literal: one byte per character, so that `"\xfa"` is one byte. -/
def lit (s : String) : Bytes :=
  s.toList.map fun c => UInt8.ofNat c.toNat

/-! ## Little-endian words -/

/-- The low `n` bytes of `v`, least significant first. -/
def leBytes : Nat → Nat → Bytes
  | 0, _ => []
  | n + 1, v => UInt8.ofNat v :: leBytes n (v / 256)

def leNat : Bytes → Nat
  | [] => 0
  | b :: bs => b.toNat + 256 * leNat bs

@[simp] theorem leBytes_length (n v : Nat) : (leBytes n v).length = n := by
  induction n generalizing v with
  | zero => rfl
  | succ n ih => simp [leBytes, ih]

theorem leNat_leBytes (n v : Nat) : leNat (leBytes n v) = v % 256 ^ n := by
  induction n generalizing v with
  | zero => simp [leBytes, leNat, Nat.mod_one]
  | succ n ih =>
    have byte : (UInt8.ofNat v).toNat = v % 256 := UInt8.toNat_ofNat'
    rw [leBytes, leNat, ih, byte, Nat.pow_succ' (n := n), Nat.mod_mul]

theorem leNat_lt (bs : Bytes) : leNat bs < 256 ^ bs.length := by
  induction bs with
  | nil => simp [leNat]
  | cons b bs ih =>
    have low := b.toNat_lt
    simp only [leNat, List.length_cons, Nat.pow_succ]
    omega

theorem leBytes_leNat (bs : Bytes) : leBytes bs.length (leNat bs) = bs := by
  induction bs with
  | nil => rfl
  | cons b bs ih =>
    have low := b.toNat_lt
    have high : (b.toNat + 256 * leNat bs) / 256 = leNat bs := by omega
    have head : UInt8.ofNat (b.toNat + 256 * leNat bs) = b := by
      apply UInt8.toNat_inj.mp
      rw [UInt8.toNat_ofNat']
      omega
    simp only [List.length_cons, leBytes, leNat, head, high, ih]

/-- `binary.LittleEndian.PutUint16`. -/
def putUint16 (v : Nat) : Bytes := leBytes 2 v

/-- `binary.LittleEndian.PutUint32`. -/
def putUint32 (v : UInt32) : Bytes := leBytes 4 v.toNat

/-- `binary.LittleEndian.PutUint64` of the conversion `uint64(v)`. -/
def putInt64 (v : Int64) : Bytes := leBytes 8 v.toUInt64.toNat

/-- The conversion `int64(binary.LittleEndian.Uint64(bs))`. -/
def int64 (bs : Bytes) : Int64 := (UInt64.ofNat (leNat bs)).toInt64

/-- `binary.LittleEndian.Uint32`. -/
def uint32 (bs : Bytes) : UInt32 := UInt32.ofNat (leNat bs)

@[simp] theorem putUint16_length (v : Nat) : (putUint16 v).length = 2 := leBytes_length 2 v
@[simp] theorem putUint32_length (v : UInt32) : (putUint32 v).length = 4 := leBytes_length 4 _
@[simp] theorem putInt64_length (v : Int64) : (putInt64 v).length = 8 := leBytes_length 8 _

theorem leNat_putUint16 {v : Nat} (fits : v < 65536) : leNat (putUint16 v) = v := by
  rw [putUint16, leNat_leBytes]
  exact Nat.mod_eq_of_lt fits

@[simp] theorem uint32_putUint32 (v : UInt32) : uint32 (putUint32 v) = v := by
  have fits : v.toNat < 256 ^ 4 := v.toNat_lt
  rw [uint32, putUint32, leNat_leBytes, Nat.mod_eq_of_lt fits, UInt32.ofNat_toNat]

@[simp] theorem int64_putInt64 (v : Int64) : int64 (putInt64 v) = v := by
  have fits : v.toUInt64.toNat < 256 ^ 8 := v.toUInt64.toNat_lt
  rw [int64, putInt64, leNat_leBytes, Nat.mod_eq_of_lt fits, UInt64.ofNat_toNat]
  simp

theorem putInt64_int64 {bs : Bytes} (width : bs.length = 8) : putInt64 (int64 bs) = bs := by
  have fits : leNat bs < 2 ^ 64 := by
    have := leNat_lt bs
    rw [width] at this
    exact this
  rw [putInt64, int64, UInt64.toUInt64_toInt64, UInt64.toNat_ofNat_of_lt' fits, ← width,
    leBytes_leNat]

theorem putUint16_leNat {bs : Bytes} (width : bs.length = 2) : putUint16 (leNat bs) = bs := by
  rw [putUint16, ← width, leBytes_leNat]

theorem putUint32_uint32 {bs : Bytes} (width : bs.length = 4) : putUint32 (uint32 bs) = bs := by
  have fits : leNat bs < 2 ^ 32 := by
    have := leNat_lt bs
    rw [width] at this
    exact this
  rw [putUint32, uint32, UInt32.toNat_ofNat_of_lt' fits, ← width, leBytes_leNat]

/-! ## Hexadecimal text -/

/-- The lower-case digit of a value below sixteen. -/
def hexDigit (n : Nat) : UInt8 :=
  if n < 10 then UInt8.ofNat (48 + n) else UInt8.ofNat (87 + n)

/-- `hex.EncodeToString`. -/
def hexEncode : Bytes → Bytes
  | [] => []
  | b :: bs => hexDigit (b.toNat / 16) :: hexDigit (b.toNat % 16) :: hexEncode bs

/-! ## Digests -/

/-- SHA-256 as the programs use it: some function to 32 bytes. -/
structure Sha256 where
  sum : Bytes → Bytes
  sum_length : ∀ b, (sum b).length = 32

/-- A result can be compared by evaluation even where errors cannot. -/
theorem except_ok_of_toOption {E α : Type} {x : Except E α} {a : α} (h : x.toOption = some a) :
    x = .ok a := by
  cases x with
  | ok b => exact congrArg _ (Option.some.inj h)
  | error fault => cases h

end Microfat.Theory
