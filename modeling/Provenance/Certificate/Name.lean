import Provenance.Asn1.Oid
import Provenance.Asn1.Scan
import Provenance.Text.Utf8

/-!
Names of subjects and issuers and the text they are shown as: `CN=Signer, O=Org + OU=Unit`.
-/
namespace Provenance

open Asn1

structure Attribute where
  type : Oid
  value : Element

structure Name where
  /-- The octets of the name up to the last part that could be read. -/
  raw : Octets
  parts : List (List Attribute)

namespace Attribute

def labels : List (Oid × String) :=
  [([2, 5, 4, 3], "CN"), ([2, 5, 4, 6], "C"), ([2, 5, 4, 7], "L"), ([2, 5, 4, 8], "ST"), ([2, 5, 4, 10], "O"),
    ([2, 5, 4, 11], "OU"), ([0, 9, 2342, 19200300, 100, 1, 25], "DC"), ([1, 2, 840, 113549, 1, 9, 1], "Email"),
    ([2, 5, 4, 4], "surname"), ([2, 5, 4, 5], "serialNumber"), ([2, 5, 4, 9], "streetAddress"),
    ([2, 5, 4, 12], "title"), ([2, 5, 4, 13], "description"), ([2, 5, 4, 14], "searchGuide"),
    ([2, 5, 4, 15], "businessCategory"), ([2, 5, 4, 16], "postalAddress"), ([2, 5, 4, 17], "postalCode"),
    ([2, 5, 4, 41], "name"), ([2, 5, 4, 42], "givenName"), ([2, 5, 4, 43], "initials"),
    ([2, 5, 4, 44], "generationQualifier"), ([2, 5, 4, 45], "uniqueIdentifier"), ([2, 5, 4, 46], "dnQualifier"),
    ([0, 9, 2342, 19200300, 100, 1, 1], "uid")]

def label (o : Oid) : String := (labels.lookup o).getD s!"OID({o.dotted})"

def isText (number : Nat) : Bool := [7, 12, 18, 19, 20, 21, 22, 25, 26, 27].contains number

def wide : Octets → List Char
  | x :: y :: r => Char.ofNat (256 * x.toNat + y.toNat) :: wide r
  | _ => []

/-- Text, or the octets of a value that is none; nothing for text that cannot be read. -/
def value? (e : Element) : Option String :=
  if isText e.number then Text.ofOctets? e.content
  else if e.number = Tag.bmpString then some (String.ofList (wide e.content))
  else some (Octets.hexUpper e.content)

def text? (a : Attribute) : Option String := (value? a.value).map fun v => s!"{label a.type}={v}"

def scan : Scan Attribute :=
  .sequence do
    let type ← .primitive Tag.oid
    let value ← .element
    return ⟨.ofContent type.content, value⟩

end Attribute

namespace Name

def part : Scan (List Attribute) := do
  let e ← .numbered Tag.set
  .inside e fun b =>
    match Scan.many Attribute.scan b with
    | ([], _) => none
    | as => some as

def scan : Scan Name := do
  let e ← .numbered Tag.sequence
  let (parts, rest) := Scan.many part e.content
  return ⟨e.raw.take (e.raw.length - rest.length), parts⟩

/-- One attribute that cannot be read spoils the whole name. -/
def text (n : Name) : String :=
  match n.parts.mapM fun part => part.mapM Attribute.text? with
  | some parts => ", ".intercalate (parts.map (" + ".intercalate ·))
  | none => "<X509Error: Invalid X.509 name>"

end Name

end Provenance
