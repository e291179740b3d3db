import Provenance.Crypto.Group
import Provenance.Key.Algorithm

/-!
The curves that a public key may name.
-/
namespace Provenance

inductive Curve
  | p256
  | p384
  | p521
  | brainpoolP256r1
  | brainpoolP320r1
  | brainpoolP384r1
  | brainpoolP512r1
  | x25519
  | x448
  | ed25519
  | ed448
  deriving DecidableEq, Repr

namespace Curve

open Crypto (Group)

def all : List Curve :=
  [p256, p384, p521, brainpoolP256r1, brainpoolP320r1, brainpoolP384r1, brainpoolP512r1, x25519, x448, ed25519, ed448]

def name : Curve → String
  | p256 => "P256"
  | p384 => "P384"
  | p521 => "P521"
  | brainpoolP256r1 => "BrainpoolP256r1"
  | brainpoolP320r1 => "BrainpoolP320r1"
  | brainpoolP384r1 => "BrainpoolP384r1"
  | brainpoolP512r1 => "BrainpoolP512r1"
  | x25519 => "X25519"
  | x448 => "X448"
  | ed25519 => "Ed25519"
  | ed448 => "Ed448"

def id : Curve → Int
  | p256 => 1
  | p384 => 2
  | p521 => 3
  | x25519 => 4
  | x448 => 5
  | ed25519 => 6
  | ed448 => 7
  | brainpoolP256r1 => 256
  | brainpoolP320r1 => 257
  | brainpoolP384r1 => 258
  | brainpoolP512r1 => 259

def ofId (i : Int) : Outcome Curve :=
  match all.find? (·.id = i) with
  | some c => .ok c
  | none => .error (.unsupported s!"COSE curve {i}")

theorem ofId_id (c : Curve) : ofId c.id = .ok c := by cases c <;> rfl

def group? : Curve → Option Group
  | p256 => some .p256
  | p384 => some .p384
  | p521 => some .p521
  | brainpoolP256r1 => some .brainpoolP256r1
  | brainpoolP320r1 => some .brainpoolP320r1
  | brainpoolP384r1 => some .brainpoolP384r1
  | brainpoolP512r1 => some .brainpoolP512r1
  | x25519 | x448 | ed25519 | ed448 => none

def isOkp (c : Curve) : Bool := c.group?.isNone

def number? (c : Curve) : Option Nat := c.group?.bind Group.number?

def ofNumber (n : Nat) : Outcome Curve :=
  match all.find? (·.number? = some n) with
  | some c => .ok c
  | none => .error (.unsupported s!"EC group {n}")

def ofGroup (g : Group) : Outcome Curve :=
  match g.number? with
  | some n => ofNumber n
  | none => .error (.unsupported "EC key on an unnamed curve")

theorem ofGroup_group? {c : Curve} {g : Group} (h : c.group? = some g) : ofGroup g = .ok c := by
  cases c <;> simp only [group?, Option.some.injEq, reduceCtorEq] at h <;> subst h <;> rfl

def size : Curve → Nat
  | p256 => 32
  | p384 => 48
  | p521 => 66
  | brainpoolP256r1 => 32
  | brainpoolP320r1 => 40
  | brainpoolP384r1 => 48
  | brainpoolP512r1 => 64
  | x25519 => 32
  | x448 => 56
  | ed25519 => 32
  | ed448 => 57

def keyType (c : Curve) : UInt64 := if c.isOkp then 1 else 2

/-- The algorithm that a signature of such a key is expected to use; keys for agreement only have none. -/
def algorithm? : Curve → Option Algorithm
  | p256 | brainpoolP256r1 => some .es256
  | p384 | brainpoolP320r1 | brainpoolP384r1 => some .es384
  | p521 | brainpoolP512r1 => some .es512
  | ed25519 | ed448 => some .eddsa
  | x25519 | x448 => none

end Curve

end Provenance
