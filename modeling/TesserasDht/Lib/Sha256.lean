import Mathlib
import TesserasDht.Lib.Slices

/-! # SHA-256 (FIPS 180-4), on natural numbers -/

open Lib.Slices

namespace Lib.Sha256

/-! ## Words -/

def add32 (x y : Nat) : Nat := (x + y) % 2 ^ 32

def rotr (x n : Nat) : Nat := (x >>> n) ||| (x <<< (32 - n)) % 2 ^ 32

def smallSigma0 (x : Nat) : Nat := rotr x 7 ^^^ rotr x 18 ^^^ (x >>> 3)

def smallSigma1 (x : Nat) : Nat := rotr x 17 ^^^ rotr x 19 ^^^ (x >>> 10)

def bigSigma0 (x : Nat) : Nat := rotr x 2 ^^^ rotr x 13 ^^^ rotr x 22

def bigSigma1 (x : Nat) : Nat := rotr x 6 ^^^ rotr x 11 ^^^ rotr x 25

def ch (x y z : Nat) : Nat := (x &&& y) ^^^ ((x ^^^ 0xffffffff) &&& z)

def maj (x y z : Nat) : Nat := (x &&& y) ^^^ (x &&& z) ^^^ (y &&& z)

def roundConstants : List Nat := [
  0x428a2f98, 0x71374491, 0xb5c0fbcf, 0xe9b5dba5, 0x3956c25b, 0x59f111f1, 0x923f82a4, 0xab1c5ed5,
  0xd807aa98, 0x12835b01, 0x243185be, 0x550c7dc3, 0x72be5d74, 0x80deb1fe, 0x9bdc06a7, 0xc19bf174,
  0xe49b69c1, 0xefbe4786, 0x0fc19dc6, 0x240ca1cc, 0x2de92c6f, 0x4a7484aa, 0x5cb0a9dc, 0x76f988da,
  0x983e5152, 0xa831c66d, 0xb00327c8, 0xbf597fc7, 0xc6e00bf3, 0xd5a79147, 0x06ca6351, 0x14292967,
  0x27b70a85, 0x2e1b2138, 0x4d2c6dfc, 0x53380d13, 0x650a7354, 0x766a0abb, 0x81c2c92e, 0x92722c85,
  0xa2bfe8a1, 0xa81a664b, 0xc24b8b70, 0xc76c51a3, 0xd192e819, 0xd6990624, 0xf40e3585, 0x106aa070,
  0x19a4c116, 0x1e376c08, 0x2748774c, 0x34b0bcb5, 0x391c0cb3, 0x4ed8aa4a, 0x5b9cca4f, 0x682e6ff3,
  0x748f82ee, 0x78a5636f, 0x84c87814, 0x8cc70208, 0x90befffa, 0xa4506ceb, 0xbef9a3f7, 0xc67178f2]

/-! ## One block -/

structure State where
  (a b c d e f g h : Nat)

def initial : State :=
  ⟨0x6a09e667, 0xbb67ae85, 0x3c6ef372, 0xa54ff53a, 0x510e527f, 0x9b05688c, 0x1f83d9ab, 0x5be0cd19⟩

/-- The message schedule, last word first. -/
def extend : Nat → List Nat → List Nat
  | 0, ws => ws
  | n + 1, ws =>
    let ws := extend n ws
    add32 (add32 (smallSigma1 (ws.getD 1 0)) (ws.getD 6 0))
      (add32 (smallSigma0 (ws.getD 14 0)) (ws.getD 15 0)) :: ws

def round (s : State) (kw : Nat × Nat) : State :=
  let t1 := add32 (add32 s.h (bigSigma1 s.e)) (add32 (ch s.e s.f s.g) (add32 kw.1 kw.2))
  let t2 := add32 (bigSigma0 s.a) (maj s.a s.b s.c)
  ⟨add32 t1 t2, s.a, s.b, s.c, add32 s.d t1, s.e, s.f, s.g⟩

def compress (s : State) (block : List UInt8) : State :=
  let words := (chunks 4 block).map fun w => w.foldl (fun n x => n * 256 + x.toNat) 0
  let r := (roundConstants.zip (extend 48 words.reverse).reverse).foldl round s
  ⟨add32 s.a r.a, add32 s.b r.b, add32 s.c r.c, add32 s.d r.d,
    add32 s.e r.e, add32 s.f r.f, add32 s.g r.g, add32 s.h r.h⟩

/-! ## A message -/

/-- The `n` bytes of `x`, the highest first. -/
def bytesOf (n x : Nat) : List UInt8 :=
  (List.range n).map fun i => UInt8.ofNat (x >>> (8 * (n - 1 - i)))

def pad (m : List UInt8) : List UInt8 :=
  m ++ 0x80 :: (List.replicate ((119 - m.length % 64) % 64) 0 ++ bytesOf 8 (8 * m.length))

def digest (m : List UInt8) : List UInt8 :=
  let s := (chunks 64 (pad m)).foldl compress initial
  [s.a, s.b, s.c, s.d, s.e, s.f, s.g, s.h].flatMap (bytesOf 4)

theorem digest_length (m : List UInt8) : (digest m).length = 32 := by
  simp [digest, bytesOf]

example : digest [0x61, 0x62, 0x63] = [
    0xba, 0x78, 0x16, 0xbf, 0x8f, 0x01, 0xcf, 0xea, 0x41, 0x41, 0x40, 0xde, 0x5d, 0xae, 0x22, 0x23,
    0xb0, 0x03, 0x61, 0xa3, 0x96, 0x17, 0x7a, 0x9c, 0xb4, 0x10, 0xff, 0x61, 0xf2, 0x00, 0x15, 0xad] := by
  decide +kernel

end Lib.Sha256
