import Provenance.Certificate.Encoding
import Provenance.Certificate.Layout
import Provenance.Key.Primitives

/-!
Keys and signatures as certificates write them, as far as they are known here: of the types, groups and signature
algorithms that there are, those of the tables below.
-/
namespace Provenance

open Asn1
open Crypto (Group)

namespace SubjectKey

def ecPublicKey : Oid := [1, 2, 840, 10045, 2, 1]
def rsaEncryption : Oid := [1, 2, 840, 113549, 1, 1, 1]

def groups : List (Oid × Group) :=
  [([1, 2, 840, 10045, 3, 1, 7], .p256), ([1, 3, 132, 0, 34], .p384), ([1, 3, 132, 0, 35], .p521),
    ([1, 3, 36, 3, 3, 2, 8, 1, 1, 7], .brainpoolP256r1), ([1, 3, 36, 3, 3, 2, 8, 1, 1, 9], .brainpoolP320r1),
    ([1, 3, 36, 3, 3, 2, 8, 1, 1, 11], .brainpoolP384r1), ([1, 3, 36, 3, 3, 2, 8, 1, 1, 13], .brainpoolP512r1),
    ([1, 3, 132, 0, 10], .secp256k1)]

def octetCurves : List (Oid × Curve) :=
  [([1, 3, 101, 110], .x25519), ([1, 3, 101, 111], .x448), ([1, 3, 101, 112], .ed25519), ([1, 3, 101, 113], .ed448)]

def point? (P : Primitives) (g : Group) (x y : Nat) : Option NativeKey :=
  if P.onCurve g x y then some (.point g x y) else none

/-- A point with both coordinates, or with one and the parity of the other, or with all of these. -/
def pointOf? (P : Primitives) (g : Group) : Octets → Option NativeKey
  | [] => none
  | form :: b =>
    let x := Octets.toNat (b.take g.width)
    let y := Octets.toNat (b.drop g.width)
    let odd := form % 2 = 1
    if form = 4 ∧ b.length = 2 * g.width then point? P g x y
    else if (form = 6 ∨ form = 7) ∧ b.length = 2 * g.width ∧ (y % 2 = 1 ↔ odd) then point? P g x y
    else if (form = 2 ∨ form = 3) ∧ b.length = g.width then (P.lift g x odd).bind (point? P g x)
    else none

def group? (a : AlgorithmId) : Option Group := do
  let e ← a.parameters?
  if Encoding.oid e then groups.lookup (.ofContent e.content) else none

def rsa? (b : Octets) : Option NativeKey := do
  let (e, _) ← Element.read? b
  match ← Encoding.parts? Tag.sequence e with
  | [n, x] =>
    if Encoding.integer n && Encoding.integer x then some (.rsa (Octets.toNat n.content) (Octets.toNat x.content))
    else none
  | _ => none

def octets? (c : Curve) (k : SubjectKey) : Option NativeKey :=
  if k.algorithm.parameters?.isNone ∧ k.bits.octets.length = c.size then some (.octets c k.bits.octets) else none

def native? (P : Primitives) (k : SubjectKey) : Option NativeKey :=
  if k.algorithm.type = ecPublicKey then (group? k.algorithm).bind fun g => pointOf? P g k.bits.octets
  else if k.algorithm.type = rsaEncryption then rsa? k.bits.octets
  else (octetCurves.lookup k.algorithm.type).bind fun c => octets? c k

end SubjectKey

inductive CertificateSignature
  | ecdsa (digest : DigestAlgorithm)
  | rsa
  | eddsa (curve : Curve)

namespace CertificateSignature

def all : List (Oid × CertificateSignature) :=
  [([1, 2, 840, 10045, 4, 3, 2], .ecdsa .sha256), ([1, 2, 840, 10045, 4, 3, 3], .ecdsa .sha384),
    ([1, 2, 840, 10045, 4, 3, 4], .ecdsa .sha512), ([1, 2, 840, 113549, 1, 1, 11], .rsa),
    ([1, 3, 101, 112], .eddsa .ed25519), ([1, 3, 101, 113], .eddsa .ed448)]

def positive? (e : Element) : Option Nat :=
  if Encoding.integer e ∧ e.content.headD 0 < 0x80 ∧ Octets.toNat e.content ≠ 0 then some (Octets.toNat e.content)
  else none

def numbers? (b : Octets) : Option (Nat × Nat) := do
  match ← Element.read? b with
  | (e, []) =>
    match ← Encoding.parts? Tag.sequence e with
    | [r, s] => return (← positive? r, ← positive? s)
    | _ => none
  | _ => none

/-- Whether a signature is right. There is no answer if it is not well formed, if the algorithm is not known or if the
key does not fit it. -/
def verify (P : Primitives) (a : AlgorithmId) (k : NativeKey) (m signature : Octets) : Option Bool :=
  match all.lookup a.type, k with
  | some (ecdsa h), .point g x y => (numbers? signature).bind fun (r, s) => P.ecdsaVerify g x y h m r s
  | some rsa, .rsa n e => some (P.rsaVerify n e m signature)
  | some (eddsa c), .octets d b =>
    if c = d then c.scheme?.bind fun e => P.eddsaVerify e b m signature else none
  | _, _ => none

end CertificateSignature

end Provenance
