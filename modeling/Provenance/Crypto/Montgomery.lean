import Provenance.Octets
import Provenance.Crypto.Residue

/-!
Public keys of the two key agreement curves of RFC 7748, by the Montgomery ladder.
-/
namespace Provenance.Crypto

open Residue (sub)

structure Montgomery where
  p : Nat
  /-- A quarter of the curve's coefficient less two. -/
  a24 : Nat
  base : Nat
  width : Nat
  clamp : Nat → Nat

namespace Montgomery

variable (c : Montgomery)

/-- Two points a fixed distance apart, by the projective form of their first coordinates. -/
structure Rungs where
  x : Nat
  z : Nat
  x' : Nat
  z' : Nat

def swap (r : Rungs) : Rungs := ⟨r.x', r.z', r.x, r.z⟩

def step (u : Nat) (r : Rungs) : Rungs :=
  let p := c.p
  let a := (r.x + r.z) % p
  let b := sub p r.x r.z
  let aa := a * a % p
  let bb := b * b % p
  let e := sub p aa bb
  let da := sub p r.x' r.z' * a % p
  let cb := (r.x' + r.z') * b % p
  let s := (da + cb) % p
  let d := sub p da cb
  ⟨aa * bb % p, e * (aa + c.a24 * e) % p, s * s % p, u * (d * d % p) % p⟩

def ladder (u k : Nat) : Rungs :=
  if k = 0 then ⟨1, 0, u, 1⟩
  else
    let r := ladder u (k / 2)
    if k % 2 = 1 then swap (c.step u (swap r)) else c.step u r
termination_by k

def mul (k u : Nat) : Nat :=
  let r := c.ladder u k
  r.x * Residue.inverse c.p r.z % c.p

def publicKey (secret : Octets) : Octets :=
  Octets.ofNatLE c.width (c.mul (c.clamp (Octets.toNatLE secret)) c.base)

end Montgomery

def x25519 : Montgomery where
  p := 0x7fffffffffffffffffffffffffffffffffffffffffffffffffffffffffffffed
  a24 := 121665
  base := 9
  width := 32
  clamp n := n / 8 * 8 % (1 <<< 254) + 1 <<< 254

def x448 : Montgomery where
  p := 0xfffffffffffffffffffffffffffffffffffffffffffffffffffffffeffffffffffffffffffffffffffffffffffffffffffffffffffffffff
  a24 := 39081
  base := 5
  width := 56
  clamp n := n / 4 * 4 % (1 <<< 447) + 1 <<< 447

end Provenance.Crypto
