import Provenance.Octets

/-!
SHAKE256 of FIPS 202: the sponge over the permutation of 25 lanes of 64 bits, with a rate of 136 octets.
-/
namespace Provenance.Crypto.Keccak

abbrev Lanes := Array UInt64

def lane (s : Lanes) (x y : Nat) : UInt64 := s.getD (x % 5 + 5 * (y % 5)) 0

def ofLanes (f : Nat → Nat → UInt64) : Lanes := Array.ofFn fun i : Fin 25 => f (i.val % 5) (i.val / 5)

def rotate (x : UInt64) (n : Nat) : UInt64 :=
  if n % 64 = 0 then x else x <<< .ofNat (n % 64) ||| x >>> .ofNat (64 - n % 64)

def theta (s : Lanes) : Lanes :=
  let column := Array.ofFn fun x : Fin 5 =>
    lane s x 0 ^^^ lane s x 1 ^^^ lane s x 2 ^^^ lane s x 3 ^^^ lane s x 4
  let c (x : Nat) := column.getD (x % 5) 0
  ofLanes fun x y => lane s x y ^^^ c (x + 4) ^^^ rotate (c (x + 1)) 1

def offsets : Array Nat := #[
  0, 1, 62, 28, 27,
  36, 44, 6, 55, 20,
  3, 10, 43, 25, 39,
  41, 45, 15, 21, 8,
  18, 2, 61, 56, 14]

/-- Rotates each lane and moves it to row `2x + 3y`. -/
def rhoPi (s : Lanes) : Lanes :=
  ofLanes fun x y =>
    let column := (x + 3 * y) % 5
    rotate (lane s column x) (offsets.getD (column + 5 * x) 0)

def chi (s : Lanes) : Lanes :=
  ofLanes fun x y => lane s x y ^^^ (~~~lane s (x + 1) y &&& lane s (x + 2) y)

def roundConstants : List UInt64 := [
  0x0000000000000001, 0x0000000000008082, 0x800000000000808a, 0x8000000080008000,
  0x000000000000808b, 0x0000000080000001, 0x8000000080008081, 0x8000000000008009,
  0x000000000000008a, 0x0000000000000088, 0x0000000080008009, 0x000000008000000a,
  0x000000008000808b, 0x800000000000008b, 0x8000000000008089, 0x8000000000008003,
  0x8000000000008002, 0x8000000000000080, 0x000000000000800a, 0x800000008000000a,
  0x8000000080008081, 0x8000000000008080, 0x0000000080000001, 0x8000000080008008]

def permute (s : Lanes) : Lanes :=
  roundConstants.foldl (fun s k => (chi (rhoPi (theta s))).modify 0 (· ^^^ k)) s

def rate : Nat := 136

def absorb (s : Lanes) (block : Octets) : Lanes :=
  permute (ofLanes fun x y =>
    let i := x + 5 * y
    lane s x y ^^^ .ofNat (Octets.toNatLE ((block.drop (8 * i)).take 8)))

def absorbAll (s : Lanes) : (blocks : Nat) → Octets → Lanes
  | 0, _ => s
  | n + 1, b => absorbAll (absorb s (b.take rate)) n (b.drop rate)

/-- Output suffix bits, then a one at the end of the last block. -/
def pad (m : Octets) : Octets :=
  let free := rate - m.length % rate
  if free = 1 then m ++ [0x9f] else m ++ 0x1f :: List.replicate (free - 2) 0 ++ [0x80]

def squeeze (s : Lanes) : (blocks : Nat) → Octets
  | 0 => []
  | n + 1 => ((s.toList.flatMap fun x => Octets.ofNatLE 8 x.toNat).take rate) ++ squeeze (permute s) n

def shake256 (size : Nat) (m : Octets) : Octets :=
  let padded := pad m
  let s := absorbAll (Array.replicate 25 0) (padded.length / rate) padded
  (squeeze s (size / rate + 1)).take size

end Provenance.Crypto.Keccak
