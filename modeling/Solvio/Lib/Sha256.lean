namespace Solvio.Lib

abbrev Bytes := List UInt8

/-! SHA-256 on natural numbers below `2 ^ 32`, so that the kernel can run it. -/
namespace Sha256

def word : Nat := 4294967296

def rotr (x n : Nat) : Nat := (x >>> n) ||| ((x <<< (32 - n)) % word)

def constants : List Nat := [
  0x428a2f98, 0x71374491, 0xb5c0fbcf, 0xe9b5dba5, 0x3956c25b, 0x59f111f1, 0x923f82a4, 0xab1c5ed5,
  0xd807aa98, 0x12835b01, 0x243185be, 0x550c7dc3, 0x72be5d74, 0x80deb1fe, 0x9bdc06a7, 0xc19bf174,
  0xe49b69c1, 0xefbe4786, 0x0fc19dc6, 0x240ca1cc, 0x2de92c6f, 0x4a7484aa, 0x5cb0a9dc, 0x76f988da,
  0x983e5152, 0xa831c66d, 0xb00327c8, 0xbf597fc7, 0xc6e00bf3, 0xd5a79147, 0x06ca6351, 0x14292967,
  0x27b70a85, 0x2e1b2138, 0x4d2c6dfc, 0x53380d13, 0x650a7354, 0x766a0abb, 0x81c2c92e, 0x92722c85,
  0xa2bfe8a1, 0xa81a664b, 0xc24b8b70, 0xc76c51a3, 0xd192e819, 0xd6990624, 0xf40e3585, 0x106aa070,
  0x19a4c116, 0x1e376c08, 0x2748774c, 0x34b0bcb5, 0x391c0cb3, 0x4ed8aa4a, 0x5b9cca4f, 0x682e6ff3,
  0x748f82ee, 0x78a5636f, 0x84c87814, 0x8cc70208, 0x90befffa, 0xa4506ceb, 0xbef9a3f7, 0xc67178f2]

structure Chain where
  (a b c d e f g h : Nat)
deriving DecidableEq

def initial : Chain :=
  ⟨0x6a09e667, 0xbb67ae85, 0x3c6ef372, 0xa54ff53a, 0x510e527f, 0x9b05688c, 0x1f83d9ab, 0x5be0cd19⟩

def round (s : Chain) (kw : Nat × Nat) : Chain :=
  let s1 := rotr s.e 6 ^^^ rotr s.e 11 ^^^ rotr s.e 25
  let ch := (s.e &&& s.f) ^^^ ((word - 1 - s.e) &&& s.g)
  let t1 := (s.h + s1 + ch + kw.1 + kw.2) % word
  let s0 := rotr s.a 2 ^^^ rotr s.a 13 ^^^ rotr s.a 22
  let maj := (s.a &&& s.b) ^^^ (s.a &&& s.c) ^^^ (s.b &&& s.c)
  ⟨(t1 + (s0 + maj)) % word, s.a, s.b, s.c, (s.d + t1) % word, s.e, s.f, s.g⟩

/-- Message schedule, newest word first. -/
def extend : Nat → List Nat → List Nat
  | 0, w => w
  | n + 1, w =>
    let x2 := w.getD 1 0
    let x15 := w.getD 14 0
    let s0 := rotr x15 7 ^^^ rotr x15 18 ^^^ (x15 >>> 3)
    let s1 := rotr x2 17 ^^^ rotr x2 19 ^^^ (x2 >>> 10)
    extend n ((w.getD 15 0 + s0 + w.getD 6 0 + s1) % word :: w)

def compress (s : Chain) (block : List Nat) : Chain :=
  let t := (constants.zip (extend 48 block.reverse).reverse).foldl round s
  ⟨(s.a + t.a) % word, (s.b + t.b) % word, (s.c + t.c) % word, (s.d + t.d) % word,
    (s.e + t.e) % word, (s.f + t.f) % word, (s.g + t.g) % word, (s.h + t.h) % word⟩

def bigEndian (n : Nat) : Nat → Bytes
  | 0 => []
  | k + 1 => UInt8.ofNat (n >>> (8 * k)) :: bigEndian n k

@[simp] theorem big_endian_length (n k : Nat) : (bigEndian n k).length = k := by
  induction k with
  | zero => rfl
  | succ k ih => simp [bigEndian, ih]

def pad (msg : Bytes) : Bytes :=
  msg ++ [0x80] ++ List.replicate ((119 - msg.length % 64) % 64) 0 ++ bigEndian (8 * msg.length) 8

def words : Bytes → List Nat
  | a :: b :: c :: d :: rest =>
    (((a.toNat * 256 + b.toNat) * 256 + c.toNat) * 256 + d.toNat) :: words rest
  | _ => []

/-- One compression for each sixteen words; the fuel is the number of words. -/
def blocks : Nat → Chain → List Nat → Chain
  | 0, s, _ => s
  | _, s, [] => s
  | n + 1, s, w => blocks n (compress s (w.take 16)) (w.drop 16)

def digest (s : Chain) : Bytes :=
  [s.a, s.b, s.c, s.d, s.e, s.f, s.g, s.h].flatMap (fun w => bigEndian w 4)

theorem digest_length (s : Chain) : (digest s).length = 32 := by
  simp [digest]

end Sha256

def sha256 (msg : Bytes) : Bytes :=
  let w := Sha256.words (Sha256.pad msg)
  Sha256.digest (Sha256.blocks w.length Sha256.initial w)

theorem sha256_length (msg : Bytes) : (sha256 msg).length = 32 := Sha256.digest_length _

/-- The published digest of `abc`. -/
example : sha256 [0x61, 0x62, 0x63] = [
    0xba, 0x78, 0x16, 0xbf, 0x8f, 0x01, 0xcf, 0xea, 0x41, 0x41, 0x40, 0xde, 0x5d, 0xae, 0x22, 0x23,
    0xb0, 0x03, 0x61, 0xa3, 0x96, 0x17, 0x7a, 0x9c, 0xb4, 0x10, 0xff, 0x61, 0xf2, 0x00, 0x15, 0xad] := by
  decide

end Solvio.Lib
