import Provenance.Asn1.Element

/-!
Scans: readers of elements one after the other. A scan looks at the number and the form of an element and not at
its class, and what follows the last element that it asks for is passed over.
-/
namespace Provenance.Asn1

abbrev Scan := StateT Octets Option

namespace Scan

def element : Scan Element := Element.read?

def header : Scan Header := header?

def numbered (n : Nat) : Scan Element := do
  let e ← element
  if e.number = n then return e else failure

def primitive (n : Nat) : Scan Element := do
  let e ← numbered n
  if e.isConstructed then failure else return e

/-- Nothing is read if the scan fails. -/
def optional {α : Type} (p : Scan α) : Scan (Option α) := fun b =>
  match p b with
  | some (a, r) => some (some a, r)
  | none => some (none, b)

/-- As often as the scan succeeds and reads something. -/
def many {α : Type} (p : Scan α) (b : Octets) : List α × Octets :=
  match p b with
  | some (a, r) => if r.length < b.length then let (as, r) := many p r; (a :: as, r) else ([], b)
  | none => ([], b)
termination_by b.length

def toEnd {α : Type} (p : Scan α) : Scan (List α) := fun b =>
  match many p b with
  | (as, []) => some (as, [])
  | _ => none

def inside {α : Type} (e : Element) (p : Scan α) : Scan α := fun b => (p e.content).map fun a => (a.1, b)

def sequence {α : Type} (p : Scan α) : Scan α := do
  let e ← numbered Tag.sequence
  inside e p

end Scan

end Provenance.Asn1
