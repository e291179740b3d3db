import Provenance.Crypto.Hmac
import Provenance.Crypto.Weierstrass

/-!
ECDSA. The nonce of a signature is derived from the key and the digest as RFC 6979 says, so signing needs no
source of randomness.
-/
namespace Provenance.Crypto.Ecdsa

/-- The leftmost bits of an octet string, as many as the order has. -/
def leftmost (n : Nat) (b : Octets) : Nat := Octets.toNat b >>> (8 * b.length - (n.log2 + 1))

def verify (c : Weierstrass) (x y : Nat) (digest : Octets) (r s : Nat) : Bool :=
  if r = 0 ∨ c.n ≤ r ∨ s = 0 ∨ c.n ≤ s then false
  else
    let w := Residue.inverse c.n s
    let u := c.mul (leftmost c.n digest * w % c.n) c.base
    let v := c.mul (r * w % c.n) ⟨x, y, 1⟩
    match c.affine? (c.add u v) with
    | some (x, _) => x % c.n = r
    | none => false

def signWith? (c : Weierstrass) (d : Nat) (digest : Octets) (k : Nat) : Option (Nat × Nat) := do
  if k = 0 ∨ c.n ≤ k then none
  let (x, _) ← c.affine? (c.mul k c.base)
  let r := x % c.n
  let s := Residue.inverse c.n k * (leftmost c.n digest + r * d) % c.n
  if r = 0 ∨ s = 0 then none else some (r, s)

structure Generator where
  key : Octets
  value : Octets

namespace Generator

def feed (h : Hash) (g : Generator) (m : Octets) : Generator :=
  let key := h.hmac g.key (g.value ++ m)
  ⟨key, h.hmac key g.value⟩

def start (h : Hash) (seed : Octets) : Generator :=
  let g : Generator := ⟨List.replicate h.size 0, List.replicate h.size 1⟩
  (g.feed h (0 :: seed)).feed h (1 :: seed)

def draw (h : Hash) (g : Generator) : (values : Nat) → Octets × Generator
  | 0 => ([], g)
  | n + 1 =>
    let value := h.hmac g.key g.value
    let (rest, g) := draw h ⟨g.key, value⟩ n
    (value ++ rest, g)

end Generator

/-- Tries nonces until one gives a signature; the first does but for a negligible chance. -/
def search (c : Weierstrass) (h : Hash) (d : Nat) (digest : Octets) (g : Generator) : (tries : Nat) → Option (Nat × Nat)
  | 0 => none
  | t + 1 =>
    let width := (c.n.log2 + 8) / 8
    let (octets, g) := g.draw h ((width + h.size - 1) / h.size)
    match signWith? c d digest (leftmost c.n (octets.take width)) with
    | some sig => some sig
    | none => search c h d digest (g.feed h [0]) t

def sign? (c : Weierstrass) (h : Hash) (d : Nat) (m : Octets) : Option (Nat × Nat) :=
  let digest := h.run m
  let width := (c.n.log2 + 8) / 8
  let seed := Octets.ofNat width d ++ Octets.ofNat width (leftmost c.n digest % c.n)
  search c h d digest (.start h seed) 64

end Provenance.Crypto.Ecdsa
