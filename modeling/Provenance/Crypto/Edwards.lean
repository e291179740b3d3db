import Provenance.Octets
import Provenance.Crypto.Residue

/-!
Curves `ax² + y² = 1 + dx²y²` over a prime field with the complete addition of projective coordinates, and the
octet form of their points: `y` with the last octet first, the parity of `x` in the highest bit.
-/
namespace Provenance.Crypto

open Residue (sub)

structure Edwards where
  p : Nat
  a : Nat
  d : Nat
  gx : Nat
  gy : Nat
  n : Nat
  width : Nat
  canonical : Bool

namespace Edwards

variable (c : Edwards)

structure Point where
  x : Nat
  y : Nat
  z : Nat

def zero : Point := ⟨0, 1, 1⟩

def base : Point := ⟨c.gx, c.gy, 1⟩

def neg (q : Point) : Point := ⟨sub c.p 0 q.x, q.y, q.z⟩

def add (q r : Point) : Point :=
  let p := c.p
  let a := q.z * r.z % p
  let b := a * a % p
  let m := q.x * r.x % p
  let n := q.y * r.y % p
  let e := c.d * m % p * n % p
  let f := sub p b e
  let g := (b + e) % p
  ⟨a * f % p * sub p ((q.x + q.y) * (r.x + r.y)) (m + n) % p, a * g % p * sub p n (c.a * m) % p, f * g % p⟩

def mul (k : Nat) (q : Point) : Point :=
  if k = 0 then zero
  else
    let h := mul (k / 2) q
    let d := c.add h h
    if k % 2 = 1 then c.add d q else d
termination_by k

def same (q r : Point) : Bool :=
  q.x * r.z % c.p = r.x * q.z % c.p ∧ q.y * r.z % c.p = r.y * q.z % c.p

def encode (q : Point) : Octets :=
  let i := Residue.inverse c.p q.z
  let x := q.x * i % c.p
  let y := q.y * i % c.p
  Octets.ofNatLE c.width (y + (x % 2) <<< (8 * c.width - 1))

def decode? (b : Octets) : Option Point := do
  if b.length ≠ c.width then none
  let v := Octets.toNatLE b
  let odd := v >>> (8 * c.width - 1)
  let y := v % (1 <<< (8 * c.width - 1))
  if c.canonical ∧ c.p ≤ y then none
  let y := y % c.p
  let yy := y * y % c.p
  let x ← Residue.sqrt? c.p (sub c.p yy 1 * Residue.inverse c.p (sub c.p (c.d * yy) c.a))
  return ⟨if x % 2 = odd then x else sub c.p 0 x, y, 1⟩

end Edwards

end Provenance.Crypto
