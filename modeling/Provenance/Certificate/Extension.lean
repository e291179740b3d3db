import Provenance.Asn1.Oid
import Provenance.Asn1.Scan

/-!
The extensions of a certificate that decide how chains are built: the identifiers of the subject's and the issuer's
key, what the key may be used for, and whether the subject is an authority. A value that cannot be read counts as
absent; of two extensions of one type the later holds.
-/
namespace Provenance

open Asn1

structure Bits where
  unused : Nat
  octets : Octets

namespace Bits

/-- Unused bits, eight at most, have to be zero. -/
def ofContent? : Octets → Option Bits
  | [] => none
  | x :: b =>
    let last := (b.getLast?.getD 0).toNat
    if x.toNat ≤ 8 ∧ (b = [] → x = 0) ∧ last % (1 <<< x.toNat) = 0 then some ⟨x.toNat, b⟩ else none

def scan : Scan Bits := do
  let e ← .primitive Tag.bitString
  fun b => (ofContent? e.content).map (·, b)

end Bits

structure KeyUsage where
  digitalSignature : Bool
  certSign : Bool

structure Extension where
  type : Oid
  value : Octets

namespace Extension

def subjectKeyIdentifier : Oid := [2, 5, 29, 14]
def keyUsage : Oid := [2, 5, 29, 15]
def basicConstraints : Oid := [2, 5, 29, 19]
def authorityKeyIdentifier : Oid := [2, 5, 29, 35]

/-- Whether an extension is critical is read and not used. -/
def scan : Scan Extension :=
  .sequence do
    let type ← .primitive Tag.oid
    let _ ← .optional do
      let e ← .numbered Tag.boolean
      guard (e.content.length = 1)
    let value ← .primitive Tag.octetString
    return ⟨.ofContent type.content, value.content⟩

end Extension

/-- What the extensions say; a certificate without key usage permits nothing. -/
structure Constraints where
  ski? : Option Octets := none
  aki? : Option Octets := none
  usage : KeyUsage := ⟨false, false⟩
  isAuthority : Bool := false

namespace Constraints

def readOctets : Scan Octets := do
  let e ← .primitive Tag.octetString
  return e.content

/-- The issuer's key may be identified in other ways than by octets under number 0. -/
def readIssuerKey : Scan (Option Octets) :=
  .sequence do
    let id? ← .optional (.numbered 0)
    return id?.bind fun e => if e.isContext then some e.content else none

def readUsage : Scan KeyUsage := do
  let bits ← Bits.scan
  let first := bits.octets.headD 0
  return ⟨first &&& 0x80 ≠ 0, first &&& 0x04 ≠ 0⟩

def flag? (e : Element) : Option Bool :=
  if e.number ≠ Tag.boolean then none
  else match e.content with
    | [0x00] => some false
    | [0xff] => some true
    | _ => none

def authority? : List Element → Option Bool
  | [] => some false
  | [e] => if e.isShortNumber then some false else flag? e
  | [e, n] => if n.isShortNumber then flag? e else none
  | _ => none

def readAuthority : Scan Bool := do
  let e ← .numbered Tag.sequence
  fun b => ((Element.all? e.content).bind authority?).map (·, b)

def read? {α : Type} (p : Scan α) (e : Extension) : Option α := (p e.value).map Prod.fst

def put (c : Constraints) (e : Extension) : Constraints :=
  if e.type = Extension.subjectKeyIdentifier then ((read? readOctets e).map ({ c with ski? := some · })).getD c
  else if e.type = Extension.authorityKeyIdentifier then ((read? readIssuerKey e).map ({ c with aki? := · })).getD c
  else if e.type = Extension.keyUsage then ((read? readUsage e).map ({ c with usage := · })).getD c
  else if e.type = Extension.basicConstraints then
    ((read? readAuthority e).map ({ c with isAuthority := · })).getD c
  else c

def ofExtensions (es : List Extension) : Constraints := es.foldl put {}

end Constraints

end Provenance
