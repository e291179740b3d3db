import Provenance.Octets

/-!
The SHA-2 hashes of FIPS 180-4. The two word sizes differ in rotation amounts and the number of rounds; the
constants of the smaller are the high halves of those of the larger.
-/
namespace Provenance.Crypto.Sha2

/-- Fractions of the cube roots of the first eighty primes. -/
def roots : List Nat := [
  0x428a2f98d728ae22, 0x7137449123ef65cd, 0xb5c0fbcfec4d3b2f, 0xe9b5dba58189dbbc,
  0x3956c25bf348b538, 0x59f111f1b605d019, 0x923f82a4af194f9b, 0xab1c5ed5da6d8118,
  0xd807aa98a3030242, 0x12835b0145706fbe, 0x243185be4ee4b28c, 0x550c7dc3d5ffb4e2,
  0x72be5d74f27b896f, 0x80deb1fe3b1696b1, 0x9bdc06a725c71235, 0xc19bf174cf692694,
  0xe49b69c19ef14ad2, 0xefbe4786384f25e3, 0x0fc19dc68b8cd5b5, 0x240ca1cc77ac9c65,
  0x2de92c6f592b0275, 0x4a7484aa6ea6e483, 0x5cb0a9dcbd41fbd4, 0x76f988da831153b5,
  0x983e5152ee66dfab, 0xa831c66d2db43210, 0xb00327c898fb213f, 0xbf597fc7beef0ee4,
  0xc6e00bf33da88fc2, 0xd5a79147930aa725, 0x06ca6351e003826f, 0x142929670a0e6e70,
  0x27b70a8546d22ffc, 0x2e1b21385c26c926, 0x4d2c6dfc5ac42aed, 0x53380d139d95b3df,
  0x650a73548baf63de, 0x766a0abb3c77b2a8, 0x81c2c92e47edaee6, 0x92722c851482353b,
  0xa2bfe8a14cf10364, 0xa81a664bbc423001, 0xc24b8b70d0f89791, 0xc76c51a30654be30,
  0xd192e819d6ef5218, 0xd69906245565a910, 0xf40e35855771202a, 0x106aa07032bbd1b8,
  0x19a4c116b8d2d0c8, 0x1e376c085141ab53, 0x2748774cdf8eeb99, 0x34b0bcb5e19b48a8,
  0x391c0cb3c5c95a63, 0x4ed8aa4ae3418acb, 0x5b9cca4f7763e373, 0x682e6ff3d6b2b8a3,
  0x748f82ee5defb2fc, 0x78a5636f43172f60, 0x84c87814a1f0ab72, 0x8cc702081a6439ec,
  0x90befffa23631e28, 0xa4506cebde82bde9, 0xbef9a3f7b2c67915, 0xc67178f2e372532b,
  0xca273eceea26619c, 0xd186b8c721c0c207, 0xeada7dd6cde0eb1e, 0xf57d4f7fee6ed178,
  0x06f067aa72176fba, 0x0a637dc5a2c898a6, 0x113f9804bef90dae, 0x1b710b35131c471b,
  0x28db77f523047d84, 0x32caab7b40c72493, 0x3c9ebe0a15c9bebc, 0x431d67c49c100d4c,
  0x4cc5d4becb3e42b6, 0x597f299cfc657e2a, 0x5fcb6fab3ad6faec, 0x6c44198c4a475817]

/-- Fractions of the square roots of the first eight primes. -/
def startLow : List Nat := [
  0x6a09e667f3bcc908, 0xbb67ae8584caa73b, 0x3c6ef372fe94f82b, 0xa54ff53a5f1d36f1,
  0x510e527fade682d1, 0x9b05688c2b3e6c1f, 0x1f83d9abfb41bd6b, 0x5be0cd19137e2179]

/-- Fractions of the square roots of the ninth to the sixteenth prime. -/
def startHigh : List Nat := [
  0xcbbb9d5dc1059ed8, 0x629a292a367cd507, 0x9159015a3070dd17, 0x152fecd8f70e5939,
  0x67332667ffc00b31, 0x8eb44a8768581511, 0xdb0c2e0d64f98fa7, 0x47b5481dbefa4fa4]

structure Family (w : Nat) where
  rounds : Nat
  upper0 : Nat × Nat × Nat
  upper1 : Nat × Nat × Nat
  lower0 : Nat × Nat × Nat
  lower1 : Nat × Nat × Nat

def short : Family 32 := ⟨64, (2, 13, 22), (6, 11, 25), (7, 18, 3), (17, 19, 10)⟩
def long : Family 64 := ⟨80, (28, 34, 39), (14, 18, 41), (1, 8, 7), (19, 61, 6)⟩

variable {w : Nat}

def rotations (r : Nat × Nat × Nat) (x : BitVec w) : BitVec w :=
  x.rotateRight r.1 ^^^ x.rotateRight r.2.1 ^^^ x.rotateRight r.2.2

def schedule (r : Nat × Nat × Nat) (x : BitVec w) : BitVec w :=
  x.rotateRight r.1 ^^^ x.rotateRight r.2.1 ^^^ x >>> r.2.2

structure State (w : Nat) where
  a : BitVec w
  b : BitVec w
  c : BitVec w
  d : BitVec w
  e : BitVec w
  f : BitVec w
  g : BitVec w
  h : BitVec w

namespace State

def ofList : List Nat → State w
  | [a, b, c, d, e, f, g, h] =>
    ⟨.ofNat w a, .ofNat w b, .ofNat w c, .ofNat w d, .ofNat w e, .ofNat w f, .ofNat w g, .ofNat w h⟩
  | _ => ⟨0, 0, 0, 0, 0, 0, 0, 0⟩

def toList (s : State w) : List (BitVec w) := [s.a, s.b, s.c, s.d, s.e, s.f, s.g, s.h]

def add (s t : State w) : State w :=
  ⟨s.a + t.a, s.b + t.b, s.c + t.c, s.d + t.d, s.e + t.e, s.f + t.f, s.g + t.g, s.h + t.h⟩

def round (v : Family w) (s : State w) (k x : BitVec w) : State w :=
  let t := s.h + rotations v.upper1 s.e + ((s.e &&& s.f) ^^^ (~~~s.e &&& s.g)) + k + x
  let u := rotations v.upper0 s.a + ((s.a &&& s.b) ^^^ (s.a &&& s.c) ^^^ (s.b &&& s.c))
  ⟨t + u, s.a, s.b, s.c, s.d + t, s.e, s.f, s.g⟩

def extend (v : Family w) (window : List (BitVec w)) : List (BitVec w) :=
  match window with
  | x :: rest => rest ++ [schedule v.lower1 (rest.getD 13 0) + rest.getD 8 0 + schedule v.lower0 (rest.getD 0 0) + x]
  | [] => []

def compress (v : Family w) (s : State w) (block : List (BitVec w)) : State w :=
  let step (p : State w × List (BitVec w)) (k : Nat) :=
    (p.1.round v (.ofNat w (k >>> (64 - w))) (p.2.headD 0), extend v p.2)
  ((roots.take v.rounds).foldl step (s, block)).1.add s

end State

/-- The message, a one bit, zeros, and its length in bits in the last two words of a block. -/
def pad (w : Nat) (m : Octets) : Octets :=
  let word := w / 8
  let used := (m.length + 1 + 2 * word) % (16 * word)
  m ++ 0x80 :: List.replicate ((16 * word - used) % (16 * word)) 0 ++ Octets.ofNat (2 * word) (8 * m.length)

def words (w : Nat) : (n : Nat) → Octets → List (BitVec w)
  | 0, _ => []
  | n + 1, b => .ofNat w (Octets.toNat (b.take (w / 8))) :: words w n (b.drop (w / 8))

def blocks (n : Nat) (ws : List (BitVec w)) : List (List (BitVec w)) :=
  match n with
  | 0 => []
  | n + 1 => ws.take 16 :: blocks n (ws.drop 16)

def hash (v : Family w) (start : List Nat) (m : Octets) : Octets :=
  let padded := pad w m
  let ws := words w (padded.length / (w / 8)) padded
  let last := (blocks (ws.length / 16) ws).foldl (State.compress v) (.ofList start)
  last.toList.flatMap fun x => Octets.ofNat (w / 8) x.toNat

def sha256 (m : Octets) : Octets := hash short (startLow.map (· >>> 32)) m
def sha384 (m : Octets) : Octets := (hash long startHigh m).take 48
def sha512 (m : Octets) : Octets := hash long startLow m

end Provenance.Crypto.Sha2
