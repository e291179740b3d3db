import Provenance.Crypto.Ecdsa
import Provenance.Crypto.Eddsa
import Provenance.Crypto.Montgomery
import Provenance.Crypto.Rsa
import Provenance.Key.Native

/-!
The primitives of hashes, points and signatures. A comparison of a signature may fail, and then has no answer.
-/
namespace Provenance

open Crypto (Group)

structure Primitives where
  digest : DigestAlgorithm → Octets → Octets
  /-- Whether affine coordinates, below the field's prime, are a point of the group. -/
  onCurve : Group → (x y : Nat) → Bool
  lift : Group → (x : Nat) → (odd : Bool) → Option Nat
  pointOf : Group → (d : Nat) → Nat × Nat
  octetsOf : Curve → (secret : Octets) → Octets
  ecdsaSign : Group → (d : Nat) → DigestAlgorithm → (m : Octets) → Option (Nat × Nat)
  ecdsaVerify : Group → (x y : Nat) → DigestAlgorithm → (m : Octets) → (r s : Nat) → Option Bool
  eddsaSign : EdwardsScheme → (secret m : Octets) → Octets
  eddsaVerify : EdwardsScheme → (key m signature : Octets) → Option Bool
  /-- A PKCS #1 v1.5 signature with SHA-256. -/
  rsaVerify : (modulus exponent : Nat) → (m signature : Octets) → Bool

namespace Primitives

def hash : DigestAlgorithm → Crypto.Hash
  | .sha256 => ⟨64, 32, Crypto.Sha2.sha256⟩
  | .sha384 => ⟨128, 48, Crypto.Sha2.sha384⟩
  | .sha512 => ⟨128, 64, Crypto.Sha2.sha512⟩

def scheme : EdwardsScheme → Crypto.Eddsa
  | .ed25519 => Crypto.ed25519
  | .ed448 => Crypto.ed448

/-- Nothing is signed or compared on a curve that is not known here. -/
def standard : Primitives where
  digest d := (hash d).run
  onCurve g x y := g.params?.any fun c => c.onCurve x y
  lift g x odd := g.params?.bind fun c => c.lift? x odd
  pointOf g d := (g.params?.bind fun c => c.affine? (c.mul d c.base)).getD (0, 0)
  octetsOf
    | .x25519 => Crypto.x25519.publicKey
    | .x448 => Crypto.x448.publicKey
    | .ed25519 => Crypto.ed25519.publicKey
    | .ed448 => Crypto.ed448.publicKey
    | _ => fun _ => []
  ecdsaSign g d h m := g.params?.bind fun c => Crypto.Ecdsa.sign? c (hash h) d m
  ecdsaVerify g x y h m r s := g.params?.map fun c => Crypto.Ecdsa.verify c x y ((hash h).run m) r s
  eddsaSign s := (scheme s).sign
  eddsaVerify s key m signature := some ((scheme s).verify key m signature)
  rsaVerify n e m := Crypto.Rsa.verify n e (Crypto.Sha2.sha256 m)

end Primitives

end Provenance
