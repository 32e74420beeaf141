/-
# Microfat.Theory.Sha256 — SHA-256 as it is computed

The theorems of this development hold for any digest function with 32-byte
results (`Sha256`).  `sha256` is the function `crypto/sha256` computes, so that a
run on a concrete file can be evaluated with the digests the file really has.
Words are natural numbers below `2 ^ 32`; the message schedule and the rounds
work on lists, newest word first.
-/
import Microfat.Theory.Bytes

namespace Microfat.Theory.Sha2

set_option autoImplicit false

def wordSize : Nat := 2 ^ 32

def rotr (x n : Nat) : Nat := (x >>> n ||| x <<< (32 - n)) % wordSize

def bigSigma0 (x : Nat) : Nat := rotr x 2 ^^^ rotr x 13 ^^^ rotr x 22
def bigSigma1 (x : Nat) : Nat := rotr x 6 ^^^ rotr x 11 ^^^ rotr x 25
def smallSigma0 (x : Nat) : Nat := rotr x 7 ^^^ rotr x 18 ^^^ x >>> 3
def smallSigma1 (x : Nat) : Nat := rotr x 17 ^^^ rotr x 19 ^^^ x >>> 10

def choose (x y z : Nat) : Nat := (x &&& y) ^^^ ((wordSize - 1 - x) &&& z)
def majority (x y z : Nat) : Nat := (x &&& y) ^^^ (x &&& z) ^^^ (y &&& z)

def roundConstants : List Nat :=
  [0x428a2f98, 0x71374491, 0xb5c0fbcf, 0xe9b5dba5, 0x3956c25b, 0x59f111f1, 0x923f82a4, 0xab1c5ed5,
   0xd807aa98, 0x12835b01, 0x243185be, 0x550c7dc3, 0x72be5d74, 0x80deb1fe, 0x9bdc06a7, 0xc19bf174,
   0xe49b69c1, 0xefbe4786, 0x0fc19dc6, 0x240ca1cc, 0x2de92c6f, 0x4a7484aa, 0x5cb0a9dc, 0x76f988da,
   0x983e5152, 0xa831c66d, 0xb00327c8, 0xbf597fc7, 0xc6e00bf3, 0xd5a79147, 0x06ca6351, 0x14292967,
   0x27b70a85, 0x2e1b2138, 0x4d2c6dfc, 0x53380d13, 0x650a7354, 0x766a0abb, 0x81c2c92e, 0x92722c85,
   0xa2bfe8a1, 0xa81a664b, 0xc24b8b70, 0xc76c51a3, 0xd192e819, 0xd6990624, 0xf40e3585, 0x106aa070,
   0x19a4c116, 0x1e376c08, 0x2748774c, 0x34b0bcb5, 0x391c0cb3, 0x4ed8aa4a, 0x5b9cca4f, 0x682e6ff3,
   0x748f82ee, 0x78a5636f, 0x84c87814, 0x8cc70208, 0x90befffa, 0xa4506ceb, 0xbef9a3f7, 0xc67178f2]

/-- The eight working words. -/
structure State where
  a : Nat
  b : Nat
  c : Nat
  d : Nat
  e : Nat
  f : Nat
  g : Nat
  h : Nat

def initial : State :=
  ⟨0x6a09e667, 0xbb67ae85, 0x3c6ef372, 0xa54ff53a, 0x510e527f, 0x9b05688c, 0x1f83d9ab, 0x5be0cd19⟩

/-- The next `n` words of the schedule. -/
def extend : Nat → List Nat → List Nat
  | 0, words => words
  | n + 1, words =>
    extend n ((smallSigma1 (words.getD 1 0) + words.getD 6 0 + smallSigma0 (words.getD 14 0) +
      words.getD 15 0) % wordSize :: words)

def round (s : State) (constant word : Nat) : State :=
  let t1 := s.h + bigSigma1 s.e + choose s.e s.f s.g + constant + word
  let t2 := bigSigma0 s.a + majority s.a s.b s.c
  ⟨(t1 + t2) % wordSize, s.a, s.b, s.c, (s.d + t1) % wordSize, s.e, s.f, s.g⟩

def bigEndian (bytes : Bytes) : Nat := bytes.foldl (fun n b => n * 256 + b.toNat) 0

/-- The words of a block, newest first. -/
def blockWords : Nat → Bytes → List Nat → List Nat
  | 0, _, words => words
  | n + 1, block, words => blockWords n (block.drop 4) (bigEndian (block.take 4) :: words)

def compress (s : State) (block : Bytes) : State :=
  let schedule := (extend 48 (blockWords 16 block [])).reverse
  let t := (roundConstants.zip schedule).foldl (fun s kw => round s kw.1 kw.2) s
  ⟨(s.a + t.a) % wordSize, (s.b + t.b) % wordSize, (s.c + t.c) % wordSize, (s.d + t.d) % wordSize,
    (s.e + t.e) % wordSize, (s.f + t.f) % wordSize, (s.g + t.g) % wordSize, (s.h + t.h) % wordSize⟩

/-- The `n` low bytes of a number, most significant first. -/
def bigEndianBytes (n v : Nat) : Bytes := (leBytes n v).reverse

def pad (message : Bytes) : Bytes :=
  message ++ 128 :: List.replicate ((119 - message.length % 64) % 64) 0 ++
    bigEndianBytes 8 (8 * message.length)

def compressBlocks : Nat → State → Bytes → State
  | 0, s, _ => s
  | n + 1, s, bytes => compressBlocks n (compress s (bytes.take 64)) (bytes.drop 64)

def digest (message : Bytes) : Bytes :=
  let padded := pad message
  let s := compressBlocks (padded.length / 64) initial padded
  [s.a, s.b, s.c, s.d, s.e, s.f, s.g, s.h].flatMap (bigEndianBytes 4)

theorem digest_length (message : Bytes) : (digest message).length = 32 := by
  simp [digest, bigEndianBytes]

end Microfat.Theory.Sha2

namespace Microfat.Theory

/-- `crypto/sha256`. -/
def sha256 : Sha256 := ⟨Sha2.digest, Sha2.digest_length⟩

example : hexEncode (sha256.sum (lit "abc")) =
    lit "ba7816bf8f01cfea414140de5dae2223b00361a396177a9cb410ff61f20015ad" := by
  decide +kernel

end Microfat.Theory
