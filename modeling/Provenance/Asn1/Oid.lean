import Provenance.Asn1.Element

/-!
Object identifiers. The first octet holds the first two numbers, every other number has seven bits to an octet.
-/
namespace Provenance.Asn1

abbrev Oid := List Nat

namespace Oid

def numbers (b : Octets) : List Nat :=
  match _h : base128? 0 b with
  | some (n, r) => n :: numbers r
  | none => []
termination_by b.length
decreasing_by exact base128?_shorter ‹_›

def ofContent : Octets → Oid
  | [] => []
  | x :: r => x.toNat / 40 :: x.toNat % 40 :: numbers r

def dotted (o : Oid) : String := ".".intercalate (o.map toString)

end Oid

end Provenance.Asn1
