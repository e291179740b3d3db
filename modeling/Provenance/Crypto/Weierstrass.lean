import Provenance.Crypto.Residue

/-!
Curves `y² = x³ + ax + b` over a prime field, in Jacobian coordinates: `(x, y, z)` stands for `(x/z², y/z³)` and
`z = 0` for the point at infinity.
-/
namespace Provenance.Crypto

open Residue (sub)

structure Weierstrass where
  p : Nat
  a : Nat
  b : Nat
  gx : Nat
  gy : Nat
  n : Nat

namespace Weierstrass

variable (c : Weierstrass)

def onCurve (x y : Nat) : Bool :=
  x < c.p ∧ y < c.p ∧ y * y % c.p = (x * x * x + c.a * x + c.b) % c.p

def lift? (x : Nat) (odd : Bool) : Option Nat :=
  if x < c.p then
    (Residue.sqrt? c.p (x * x * x + c.a * x + c.b)).bind fun y =>
      let y := if (y % 2 = 1) = odd then y else sub c.p 0 y
      if (y % 2 = 1) = odd then some y else none
  else none

structure Point where
  x : Nat
  y : Nat
  z : Nat

def infinity : Point := ⟨1, 1, 0⟩

def base : Point := ⟨c.gx, c.gy, 1⟩

def double (q : Point) : Point :=
  let p := c.p
  let yy := q.y * q.y % p
  let s := 4 * q.x * yy % p
  let zz := q.z * q.z % p
  let m := (3 * q.x * q.x + c.a * zz % p * zz) % p
  let x := sub p (m * m) (2 * s)
  ⟨x, sub p (m * sub p s x) (8 * yy * yy), 2 * q.y * q.z % p⟩

def add (q r : Point) : Point :=
  if q.z = 0 then r else if r.z = 0 then q else
  let p := c.p
  let qz := q.z * q.z % p
  let rz := r.z * r.z % p
  let u := q.x * rz % p
  let s := q.y * r.z % p * rz % p
  let h := sub p (r.x * qz) u
  let d := sub p (r.y * q.z % p * qz) s
  if h = 0 then if d = 0 then c.double q else infinity
  else
    let hh := h * h % p
    let hhh := h * hh % p
    let v := u * hh % p
    let x := sub p (sub p (d * d) hhh) (2 * v)
    ⟨x, sub p (d * sub p v x) (s * hhh), q.z * r.z % p * h % p⟩

def mul (k : Nat) (q : Point) : Point :=
  if k = 0 then infinity
  else
    let d := c.double (mul (k / 2) q)
    if k % 2 = 1 then c.add d q else d
termination_by k

def affine? (q : Point) : Option (Nat × Nat) :=
  if q.z % c.p = 0 then none
  else
    let i := Residue.inverse c.p q.z
    let ii := i * i % c.p
    some (q.x * ii % c.p, q.y * ii % c.p * i % c.p)

end Weierstrass

end Provenance.Crypto
