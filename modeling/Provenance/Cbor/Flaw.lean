import Provenance.Fault
import Provenance.Cbor.Describe

/-!
Why octets are not one data item, and why an item has no octets.
-/
namespace Provenance.Cbor

inductive Flaw
  | truncated
  /-- `left` octets remain where the fault stands. -/
  | malformed (left : Nat)
  | strayBreak
  | reservedSimple (n : UInt8)
  | tooDeep
  | trailing (count : Nat)
  | unencodable (n : UInt8)
  | duplicateKey (k : Item)

/-- Arrays, maps and tags may stand this deep inside each other. -/
def maxNesting : Nat := 128

def Flaw.fault (size : Nat) : Flaw → Fault
  | truncated => .malformed "truncated CBOR data item"
  | malformed left => .malformed s!"malformed CBOR at offset {size - left}"
  | strayBreak => .malformed "unexpected CBOR break"
  | reservedSimple n => .malformed s!"reserved simple value {n.toNat}"
  | tooDeep => .malformed s!"CBOR nesting deeper than {maxNesting}"
  | trailing n => .malformed s!"{n} trailing bytes after CBOR data item"
  | unencodable n => .malformed s!"simple({n.toNat}) is reserved or has a dedicated variant"
  | duplicateKey k => .duplicated s!"map key {k.describe}"

end Provenance.Cbor
