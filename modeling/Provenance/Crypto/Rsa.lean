import Provenance.Octets
import Provenance.Crypto.Residue

/-!
RSA signatures with the padding of PKCS #1 v1.5 over SHA-256.
-/
namespace Provenance.Crypto.Rsa

def sha256Info : Octets :=
  [0x30, 0x31, 0x30, 0x0d, 0x06, 0x09, 0x60, 0x86, 0x48, 0x01, 0x65, 0x03, 0x04, 0x02, 0x01, 0x05, 0x00, 0x04, 0x20]

/-- The padded digest, as wide as the modulus; at least eight octets of padding. -/
def pad? (width : Nat) (digest : Octets) : Option Octets :=
  let info := sha256Info ++ digest
  if info.length + 11 ≤ width then some (0 :: 1 :: List.replicate (width - info.length - 3) 0xff ++ 0 :: info)
  else none

def verify (modulus exponent : Nat) (digest signature : Octets) : Bool :=
  let width := Octets.width modulus
  let s := Octets.toNat signature
  signature.length = width ∧ s < modulus ∧
    pad? width digest = some (Octets.ofNat width (Residue.pow modulus s exponent))

end Provenance.Crypto.Rsa
