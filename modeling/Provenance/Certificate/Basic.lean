import Provenance.Key.Signature

/-!
Certificates: who the subject is, whose signature vouches for the subject's key, and what the key may be used for.
-/
namespace Provenance

open Calendar (Instant)

structure Certificate where
  der : Octets
  layout : Layout
  constraints : Constraints

namespace Certificate

/-- What cannot be laid out is malformed; what is laid out and wrongly encoded is a fault of the provider. -/
def ofDer (b : Octets) : Outcome Certificate :=
  match Layout.scan b with
  | none => .error (.malformed "X.509 certificate")
  | some (l, rest) =>
    if rest ≠ [] then .error (.malformed s!"{rest.length} trailing bytes after X.509 certificate")
    else if Encoding.isCertificate b then .ok ⟨b, l, .ofExtensions l.part.extensions⟩
    else .error .provider

variable (c : Certificate)

def ski? : Option Octets := c.constraints.ski?

def aki? : Option Octets := c.constraints.aki?

def subject : String := c.layout.part.subject.text

def issuer : String := c.layout.part.issuer.text

def rawSubject : Octets := c.layout.part.subject.raw

def rawIssuer : Octets := c.layout.part.issuer.raw

/-- The octets of the serial number as they stand in the certificate, with a leading zero where it has one. -/
def serial : Octets := c.layout.part.serial

def notBefore : Instant := c.layout.part.notBefore

def notAfter : Instant := c.layout.part.notAfter

def isSelfIssued : Bool := c.rawSubject = c.rawIssuer

def isAuthority : Bool := c.constraints.isAuthority

def allowsSignature : Bool := c.constraints.usage.digitalSignature

def allowsCertSign : Bool := c.constraints.usage.certSign

def nativeKey (P : Provider) : Outcome NativeKey :=
  match P.subjectKey c.layout.part.key with
  | some k => .ok k
  | none => .error .provider

def publicKey (P : Provider) : Outcome PublicKey := c.nativeKey P >>= PublicKey.ofNative

/-- A signature that cannot be compared is not right. -/
def isSignedBy (P : Provider) (k : NativeKey) : Bool :=
  c.layout.part.algorithm.raw = c.layout.algorithm.raw && c.layout.signature.unused = 0 &&
    (P.certifies c.layout.algorithm k c.layout.part.raw c.layout.signature.octets).getD false

/-- Times are compared as certificates write them, so parts of a second do not count. -/
def isValidAt (t : Instant) : Outcome Bool := do
  let s ← Asn1.Time.encode .generalized t.wholeSecond
  let now ← Asn1.Time.decode .generalized s
  return c.notBefore.secs ≤ now.secs ∧ now.secs ≤ c.notAfter.secs

def same (d : Certificate) : Bool := c.der = d.der

def describe : String :=
  let ski := (c.ski?.map fun k => s!"Some({Text.quoted (Octets.hex k)})").getD "None"
  s!"Certificate \x7b subject: {Text.quoted c.subject}, issuer: {Text.quoted c.issuer}, ski: {ski} \x7d"

end Certificate

end Provenance
