import Provenance.Asn1.Time
import Provenance.Certificate.Extension
import Provenance.Certificate.Name

/-!
The layout of a certificate: which field stands where. Reading it is lenient, `Encoding` says what else has to hold.
-/
namespace Provenance

open Asn1
open Calendar (Instant)

structure AlgorithmId where
  raw : Octets
  type : Oid
  parameters? : Option Element

structure SubjectKey where
  algorithm : AlgorithmId
  bits : Bits

structure SignedPart where
  raw : Octets
  serial : Octets
  algorithm : AlgorithmId
  issuer : Name
  notBefore : Instant
  notAfter : Instant
  subject : Name
  key : SubjectKey
  extensions : List Extension

structure Layout where
  part : SignedPart
  algorithm : AlgorithmId
  signature : Bits

namespace AlgorithmId

def scan : Scan AlgorithmId := do
  let e ← .numbered Tag.sequence
  .inside e do
    let type ← .primitive Tag.oid
    let parameters? ← .optional .element
    return ⟨e.raw, .ofContent type.content, parameters?⟩

end AlgorithmId

def SubjectKey.scan : Scan SubjectKey :=
  .sequence do
    let algorithm ← AlgorithmId.scan
    let bits ← Bits.scan
    return ⟨algorithm, bits⟩

namespace SignedPart

def tagged (number : Nat) (p : Octets → Bool) : Scan Unit := fun b =>
  match Element.read? b with
  | some (e, r) =>
    if e.isContext ∧ e.number = number then if p e.content then some ((), r) else none else some ((), b)
  | none => some ((), b)

def isVersion (b : Octets) : Bool := (Element.read? b).any fun e => e.1.isShortNumber

def isBits (b : Octets) : Bool := (Bits.ofContent? b).isSome

def instant? (e : Element) : Option Instant := do
  let format ← if e.number = Tag.utcTime then some .utc
    else if e.number = Tag.generalizedTime then some .generalized else none
  let s ← Text.ofOctets? e.content
  (Time.decode format s).toOption

def instant : Scan Instant := do
  let e ← .element
  fun b => (instant? e).map (·, b)

def validity : Scan (Instant × Instant) :=
  .sequence do
    let notBefore ← instant
    let notAfter ← instant
    return (notBefore, notAfter)

/-- Extensions take up all that is left, and nothing is left without them. -/
def scanExtensions : Scan (List Extension) := fun b =>
  if b = [] then some ([], [])
  else (do
    let h ← Scan.header
    if h.number ≠ 3 then failure
    let es ← Scan.sequence (.toEnd Extension.scan)
    let left ← get
    if left = [] then return es else failure : Scan (List Extension)) b

def scan : Scan SignedPart := do
  let e ← .numbered Tag.sequence
  .inside e do
    tagged 0 isVersion
    let serial ← .numbered Tag.integer
    let algorithm ← AlgorithmId.scan
    let issuer ← Name.scan
    let (notBefore, notAfter) ← validity
    let subject ← Name.scan
    let key ← SubjectKey.scan
    tagged 1 isBits
    tagged 2 isBits
    let extensions ← scanExtensions
    return ⟨e.raw, serial.content, algorithm, issuer, notBefore, notAfter, subject, key, extensions⟩

end SignedPart

def Layout.scan : Scan Layout :=
  .sequence do
    let part ← SignedPart.scan
    let algorithm ← AlgorithmId.scan
    let signature ← Bits.scan
    return ⟨part, algorithm, signature⟩

end Provenance
