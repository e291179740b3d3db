import Provenance.Key.Curve

/-!
Keys as a provider works with them.
-/
namespace Provenance

open Crypto (Group)

inductive EdwardsScheme
  | ed25519
  | ed448
  deriving DecidableEq, Repr

namespace Curve

def scheme? : Curve → Option EdwardsScheme
  | ed25519 => some .ed25519
  | ed448 => some .ed448
  | _ => none

def typeNumber : Curve → Nat
  | x25519 => 1034
  | x448 => 1035
  | ed25519 => 1087
  | ed448 => 1088
  | _ => 408

end Curve

def knownKeyTypes : List Nat := [6, 408, 1034, 1035, 1087, 1088]

/-- A key of a type that nothing here is done with. -/
structure ForeignKey where
  typeNumber : Nat
  encoding : Octets
  foreign : typeNumber ∉ knownKeyTypes
  deriving DecidableEq, Repr

inductive NativeKey
  | point (group : Group) (x y : Nat)
  | octets (curve : Curve) (b : Octets)
  | rsa (modulus exponent : Nat)
  | other (key : ForeignKey)
  deriving DecidableEq, Repr

namespace NativeKey

def typeNumber : NativeKey → Nat
  | point .. => 408
  | octets c _ => c.typeNumber
  | rsa .. => 6
  | other k => k.typeNumber

end NativeKey

inductive PrivateKey
  | scalar (group : Group) (d : Nat)
  | secret (curve : Curve) (b : Octets)
  deriving DecidableEq, Repr

namespace PrivateKey

def typeNumber : PrivateKey → Nat
  | scalar .. => 408
  | secret c _ => c.typeNumber

end PrivateKey

end Provenance
