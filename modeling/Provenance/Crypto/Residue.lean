/-!
Arithmetic of residues, as natural numbers below the modulus.
-/
namespace Provenance.Crypto.Residue

def sub (m a b : Nat) : Nat := (a + (m - b % m)) % m

def pow (m b e : Nat) : Nat :=
  if e = 0 then 1 % m
  else
    let h := pow m (b * b % m) (e / 2)
    if e % 2 = 1 then b * h % m else h
termination_by e

def inverse (p x : Nat) : Nat := pow p x (p - 2)

/-- A square root modulo a prime that leaves 3 on division by 4 or 5 on division by 8. -/
def sqrt? (p x : Nat) : Option Nat :=
  let x := x % p
  if p % 4 = 3 then
    let r := pow p x ((p + 1) / 4)
    if r * r % p = x then some r else none
  else
    let r := pow p x ((p + 3) / 8)
    if r * r % p = x then some r
    else
      let r' := r * pow p 2 ((p - 1) / 4) % p
      if r' * r' % p = x then some r' else none

end Provenance.Crypto.Residue
