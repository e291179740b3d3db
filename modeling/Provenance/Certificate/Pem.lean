import Provenance.Certificate.Basic
import Provenance.Text.Base64

/-!
Bundles of certificates in text form: blocks between a `BEGIN` and an `END` line with one name. Text outside blocks
and blocks of other names are passed over, but every block has to be well formed.
-/
namespace Provenance.Pem

open Asn1

def startMark : Octets := Text.octets "-----BEGIN "
def endMark : Octets := Text.octets "-----END "
def tailMark : Octets := Text.octets "-----"
def byteOrderMark : Octets := [0xef, 0xbb, 0xbf]

def names : List Octets := ["CERTIFICATE", "X509 CERTIFICATE"].map Text.octets

/-- The widest line after an empty one; all lines but the last are as wide. -/
def lineWidth : Nat := 64

def lines : Octets → List Octets
  | [] => []
  | x :: b =>
    match lines b with
    | [] => if x = 0x0a then [[]] else [[x]]
    | l :: ls => if x = 0x0a then [] :: l :: ls else (x :: l) :: ls

/-- Without the octets at the end that are no visible character. -/
def trim (l : Octets) : Octets := (l.reverse.dropWhile fun x => x ≤ 0x20 ∨ 0x80 ≤ x).reverse

def strip? (front l : Octets) : Option Octets := if front.isPrefixOf l then some (l.drop front.length) else none

def startOf? (l : Octets) : Option Octets := do
  let r ← strip? startMark l
  let reversed ← strip? tailMark.reverse r.reverse
  return reversed.reverse

structure Block where
  name : Octets
  before : List Octets
  after? : Option (List Octets)

namespace Block

def ended (b : Block) : Bool := ((b.after?.bind List.head?).any fun l => l.length < lineWidth)

def push? (b : Block) (l : Octets) : Option Block :=
  match b.after? with
  | none => some (if l = [] then { b with after? := some [] } else { b with before := l :: b.before })
  | some ls =>
    if l = [] ∨ b.ended ∨ lineWidth < l.length then none else some { b with after? := some (l :: ls) }

def contents? (b : Block) : Option Octets :=
  match Text.Base64.decode? ((b.after?.getD b.before).reverse.flatMap id) with
  | some [] => none
  | r => r

/-- Lines before an empty one would say that the contents are encrypted. -/
def hasHeader (b : Block) : Bool := b.after?.isSome ∧ b.before ≠ []

/-- The certificates of a block, of which only the first element counts, written anew. -/
def finish? (b : Block) : Option (List Octets) := do
  let contents ← b.contents?
  if !names.contains b.name then return []
  let (e, _) ← Element.read? contents
  if !b.hasHeader ∧ Encoding.certificate e then return [Encoding.writeCertificate e] else none

end Block

inductive Position
  | fresh
  | outside
  | inside (b : Block)

def unmark : Position → Octets → Octets
  | .fresh, l => (strip? byteOrderMark l).getD l
  | _, l => l

def blocks? (p : Position) : List Octets → Option (List Octets)
  | [] =>
    match p with
    | .inside _ => none
    | _ => some []
  | line :: rest =>
    let l := trim (unmark p line)
    match p with
    | .inside b =>
      match strip? endMark l with
      | some tail =>
        if tail = b.name ++ tailMark then do
          let found ← b.finish?
          let more ← blocks? .fresh rest
          return found ++ more
        else none
      | none => (b.push? l).bind fun b => blocks? (.inside b) rest
    | _ =>
      match startOf? l with
      | some name => blocks? (.inside ⟨name, [], none⟩) rest
      | none => blocks? .outside rest

end Provenance.Pem

namespace Provenance.Certificate

def ofPem (text : Octets) : Outcome (List Certificate) :=
  match Pem.blocks? .fresh (Pem.lines text) with
  | some ders => ders.mapM ofDer
  | none => .error (.malformed "PEM bundle")

end Provenance.Certificate
