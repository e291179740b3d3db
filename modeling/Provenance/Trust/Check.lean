import Provenance.Certificate.Basic
import Provenance.Trust.Fault

/-!
Checks on a chain of certificates, leaf first. Which checks are made and in which order does not depend on how they
turn out; the first that fails decides.
-/
namespace Provenance

open Calendar (Instant)

/-- A rule of the caller's for every certificate of a chain: it may give a reason to reject one. -/
structure Validator where
  name : String
  reason? : Certificate → Option String

inductive Check
  | signatureUse (leaf : Certificate)
  | authority (issuer : Certificate)
  | certSignUse (issuer : Certificate)
  | issuerName (c issuer : Certificate)
  | issuerKey (c issuer : Certificate)
  | validity (c : Certificate) (t : Instant)
  | signature (c issuer : Certificate)
  | validator (v : Validator) (c : Certificate)

namespace Check

def require (b : Bool) (e : TrustFault) : Except TrustFault Unit := if b then .ok () else .error e

def use {α : Type} (c : Certificate) (x : Outcome α) : Except TrustFault α := x.mapError (.unusable c.subject)

def issuerKeyFits (c issuer : Certificate) : Bool :=
  match c.aki?, issuer.ski? with
  | some aki, some ski => aki = ski
  | _, _ => true

def run (P : Provider) : Check → Except TrustFault Unit
  | signatureUse c => require c.allowsSignature (.noSignatureUse c.subject)
  | authority c => require c.isAuthority (.noAuthority c.subject)
  | certSignUse c => require c.allowsCertSign (.noCertSignUse c.subject)
  | issuerName c d => require (c.rawIssuer = d.rawSubject) (.wrongIssuer c.subject c.issuer d.subject)
  | issuerKey c d => require (issuerKeyFits c d) (.wrongIssuerKey c.subject d.subject)
  | validity c t => do
    let b ← use c (c.isValidAt t)
    require b (.notValidAt c.subject t)
  | signature c d => do
    let k ← use d (d.nativeKey P)
    require (c.isSignedBy P k) (.notSignedBy c.subject d.subject)
  | validator v c =>
    match v.reason? c with
    | none => .ok ()
    | some r => .error (.rejected c.subject r)

def validators (vs : List Validator) (c : Certificate) : List Check := vs.map (validator · c)

def leaf (vs : List Validator) (t : Instant) (c : Certificate) : List Check :=
  signatureUse c :: validity c t :: validators vs c

def link (vs : List Validator) (t : Instant) (c issuer : Certificate) : List Check :=
  [authority issuer, certSignUse issuer, issuerName c issuer, issuerKey c issuer, validity issuer t,
    signature c issuer] ++ validators vs issuer

def links (vs : List Validator) (t : Instant) : List Certificate → List Check
  | c :: d :: cs => link vs t c d ++ links vs t (d :: cs)
  | _ => []

/-- A certificate at the end that names itself as its issuer has signed itself. -/
def terminal (c : Certificate) : List Check := if c.isSelfIssued then [signature c c] else []

def chain (vs : List Validator) (t : Instant) (cs : List Certificate) : List Check :=
  (cs.head?.map (leaf vs t)).getD [] ++ links vs t cs ++ (cs.getLast?.map terminal).getD []

def runAll (P : Provider) (checks : List Check) : Except TrustFault Unit := checks.forM (run P)

/-- The checks that are made: all up to the first that fails, and that one. -/
def performed (P : Provider) : List Check → List Check
  | [] => []
  | k :: ks =>
    match k.run P with
    | .ok _ => k :: performed P ks
    | .error _ => [k]

end Check

end Provenance
