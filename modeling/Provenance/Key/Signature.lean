import Provenance.Key.Provider
import Provenance.Key.PublicKey
import Provenance.Log

/-!
Public keys in the form of a provider and back, and signatures in the form that documents carry: for ECDSA both numbers
one after the other, each as wide as the curve's field.
-/
namespace Provenance

def padded (width n : Nat) : Outcome Octets := ((Octets.padded? width n).map pure).getD (.error .provider)

namespace PublicKey

/-- A point has to be on its curve, octets have to be as many as the curve's keys are. -/
def native (P : Provider) : PublicKey → Outcome NativeKey
  | affine c x y =>
    match c.group? with
    | none => .error (.unsupported s!"{c.name} as EC2 key")
    | some g =>
      if P.onCurve g (Octets.toNat x) (Octets.toNat y) then .ok (.point g (Octets.toNat x) (Octets.toNat y))
      else .error (.malformed s!"{c.name} point not on curve")
  | single c x =>
    if c.isOkp ∧ x.length = c.size then .ok (.octets c x) else .error (.malformed s!"{c.name} public key")

def ofNative : NativeKey → Outcome PublicKey
  | .point g x y => do
    let c ← Curve.ofGroup g
    let x ← padded c.size x
    let y ← padded c.size y
    point c x y
  | .octets c b => okp c b
  | k => .error (.unsupported s!"public key type {k.typeNumber}")

end PublicKey

namespace PrivateKey

def native (P : Provider) : PrivateKey → NativeKey
  | scalar g d => let q := P.pointOf g d; .point g q.1 q.2
  | secret c b => .octets c (P.octetsOf c b)

def publicKey (P : Provider) (k : PrivateKey) : Outcome PublicKey := PublicKey.ofNative (k.native P)

end PrivateKey

def Algorithm.misfit {α : Type} (a : Algorithm) (typeNumber : Nat) : Outcome α :=
  .error (.unsupported s!"{a.name} with key type {typeNumber}")

def joinHalves (width r s : Nat) : Outcome Octets := do
  let front ← padded width r
  let back ← padded width s
  return front ++ back

def splitHalves? (width : Nat) (b : Octets) : Option (Nat × Nat) :=
  if b.length = 2 * width then some (Octets.toNat (b.take width), Octets.toNat (b.drop width)) else none

def sign (P : Provider) (k : PrivateKey) (a : Algorithm) (m : Octets) : Outcome Octets :=
  match a.digest?, k with
  | some h, .scalar g d =>
    match P.ecdsaSign g d h m with
    | some (r, s) => joinHalves g.width r s
    | none => .error .provider
  | none, .secret c b =>
    match c.scheme? with
    | some e => .ok (P.eddsaSign e b m)
    | none => a.misfit k.typeNumber
  | _, _ => a.misfit k.typeNumber

/-- Whether a signature is right; one of the wrong shape is not, nor is one that the provider fails on. A fault says
that key and algorithm do not fit. -/
def verify (P : Provider) (k : NativeKey) (a : Algorithm) (m signature : Octets) : Outcome Bool :=
  match a.digest?, k with
  | some h, .point g x y =>
    match splitHalves? g.width signature with
    | some (r, s) => .ok ((P.ecdsaVerify g x y h m r s).getD false)
    | none => .ok false
  | none, .octets c b =>
    match c.scheme? with
    | some e => .ok ((P.eddsaVerify e b m signature).getD false)
    | none => a.misfit k.typeNumber
  | _, _ => a.misfit k.typeNumber

/-- An ECDSA signature of the wrong length is noted. -/
def verifyLog (k : NativeKey) (a : Algorithm) (signature : Octets) : Log :=
  match a.digest?, k with
  | some _, .point g _ _ =>
    if signature.length = 2 * g.width then []
    else [.debug s!"ECDSA signature is {signature.length} bytes, expecting {2 * g.width}"]
  | _, _ => []

end Provenance
