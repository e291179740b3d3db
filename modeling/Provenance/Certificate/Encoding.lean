import Provenance.Asn1.Element
import Provenance.Text.Utf8

/-!
The encoding of a certificate: every element has the class and form of its type, integers and object identifiers are
written in the one way there is, and no sequence holds more than its fields.
-/
namespace Provenance.Encoding

open Asn1

def parts? (number : Nat) (e : Element) : Option (List Element) :=
  if e.isUniversal ∧ e.isConstructed ∧ e.number = number then Element.all? e.content else none

def allParts (number : Nat) (p : Element → Bool) (e : Element) : Bool := (parts? number e).any (·.all p)

def primitive (number : Nat) (p : Octets → Bool) (e : Element) : Bool :=
  e.isUniversal && !e.isConstructed && e.number = number && p e.content

def tagged? (number : Nat) (e : Element) : Option Element :=
  if e.isContext ∧ e.isConstructed ∧ e.number = number then
    match Element.all? e.content with
    | some [x] => some x
    | _ => none
  else none

def isMinimal : Octets → Bool
  | [] => false
  | 0x00 :: x :: _ => 0x80 ≤ x
  | 0xff :: x :: _ => x < 0x80
  | _ => true

/-- Numbers of seven bits to an octet, none of which begins with zero bits alone. -/
def isOid (start : Bool) : Octets → Bool
  | [] => start
  | x :: r => !(start && x = 0x80) && isOid (x < 0x80) r

def isBits : Octets → Bool
  | [] => false
  | x :: _ => x ≤ 7

def integer : Element → Bool := primitive Tag.integer isMinimal

def oid : Element → Bool := primitive Tag.oid fun b => b ≠ [] && isOid true b

def bits : Element → Bool := primitive Tag.bitString isBits

/-- Parameters may be of any type; those of a type with one encoding have it. -/
def any (e : Element) : Bool :=
  !e.isUniversal || match e.number with
    | 1 => e.content.length = 1
    | 2 => integer e
    | 5 => e.content = []
    | 6 => oid e
    | _ => true

def algorithm (e : Element) : Bool :=
  match parts? Tag.sequence e with
  | some [o] => oid o
  | some [o, p] => oid o && any p
  | _ => false

def isScalar (n : Nat) : Bool := n < 0xd800 ∨ 0xdfff < n ∧ n < 0x110000

def isWide (width : Nat) (b : Octets) : Bool :=
  if b = [] then true
  else if width = 0 ∨ b.length < width then false
  else isScalar (Octets.toNat (b.take width)) && isWide width (b.drop width)
termination_by b.length
decreasing_by
  have := List.length_pos_iff.mpr ‹¬b = []›
  simp only [List.length_drop]
  omega

def valueTypes : List Nat := [3, 7, 8, 9, 11, 12, 13, 14, 15, 16, 18, 19, 20, 22, 28, 29, 30]

def value (e : Element) : Bool :=
  e.isUniversal && valueTypes.contains e.number && e.isConstructed = (e.number = Tag.sequence) &&
    if e.number = Tag.utf8String then (Text.ofOctets? e.content).isSome
    else if e.number = Tag.bmpString then isWide 2 e.content
    else if e.number = Tag.universalString then isWide 4 e.content
    else if e.number = Tag.bitString then isBits e.content
    else true

def pair (e : Element) : Bool :=
  match parts? Tag.sequence e with
  | some [o, v] => oid o && value v
  | _ => false

def name : Element → Bool := allParts Tag.sequence (allParts Tag.set pair)

def time (e : Element) : Bool :=
  primitive Tag.utcTime (fun _ => true) e || primitive Tag.generalizedTime (fun _ => true) e

def validity (e : Element) : Bool :=
  match parts? Tag.sequence e with
  | some [a, b] => time a && time b
  | _ => false

def subjectKey (e : Element) : Bool :=
  match parts? Tag.sequence e with
  | some [a, b] => algorithm a && bits b
  | _ => false

def isFlag (b : Octets) : Bool := b.length = 1

def octets : Element → Bool := primitive Tag.octetString fun _ => true

def extension (e : Element) : Bool :=
  match parts? Tag.sequence e with
  | some [o, v] => oid o && octets v
  | some [o, c, v] => oid o && primitive Tag.boolean isFlag c && octets v
  | _ => false

def isUniqueId (number : Nat) (e : Element) : Bool :=
  e.isContext && !e.isConstructed && e.number = number && isBits e.content

def dropIf (p : Element → Bool) : List Element → List Element
  | [] => []
  | e :: es => if p e then es else e :: es

def afterKey (es : List Element) : Bool :=
  match dropIf (isUniqueId 2) (dropIf (isUniqueId 1) es) with
  | [] => true
  | [e] => (tagged? 3 e).any (allParts Tag.sequence extension)
  | _ => false

def signed (e : Element) : Bool :=
  match (parts? Tag.sequence e).map (dropIf fun v => (tagged? 0 v).any integer) with
  | some (serial :: alg :: issuer :: period :: subject :: key :: rest) =>
    integer serial && algorithm alg && name issuer && validity period && name subject && subjectKey key &&
      afterKey rest
  | _ => false

def certificate (e : Element) : Bool :=
  match parts? Tag.sequence e with
  | some [s, a, b] => signed s && algorithm a && bits b
  | _ => false

def isCertificate (b : Octets) : Bool :=
  match Element.read? b with
  | some (e, []) => certificate e
  | _ => false

/-! An element that was read may be written anew, with a length as short as it can be. -/

def lengthOctets (n : Nat) : Octets :=
  if n < 0x80 then [.ofNat n] else .ofNat (0x80 + (Octets.minimal n).length) :: Octets.minimal n

def write (first : UInt8) (content : Octets) : Octets := first :: lengthOctets content.length ++ content

/-- Bits that are not used become zero. -/
def clearUnused : Octets → Octets
  | [] => []
  | [_] => [0]
  | n :: b => n :: b.dropLast ++ (b.getLast?.map fun x => x &&& (0xff <<< n)).toList

/-- Parameters that hold elements, or are of a type of their own, stay as they came. -/
def writeAny (e : Element) : Octets :=
  if e.isUniversal ∧ !e.isConstructed ∧ e.number < 31 then write e.first e.content else e.raw

def writeAlgorithm (e : Element) : Octets :=
  match parts? Tag.sequence e with
  | some (o :: parameters) => write e.first (write o.first o.content ++ parameters.flatMap writeAny)
  | _ => e.raw

/-- What is signed stays as it came. -/
def writeCertificate (e : Element) : Octets :=
  match parts? Tag.sequence e with
  | some [s, a, b] => write e.first (s.raw ++ writeAlgorithm a ++ write b.first (clearUnused b.content))
  | _ => e.raw

end Provenance.Encoding
