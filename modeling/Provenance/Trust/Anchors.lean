import Std.Data.ExtTreeMap
import Provenance.Certificate.Pem
import Provenance.Log

/-!
Trust anchors: certificates that are trusted as they stand, by the identifier of their key.
-/
namespace Provenance

structure AnchorStore where
  anchors : Std.ExtTreeMap Octets Certificate

namespace AnchorStore

def empty : AnchorStore := ⟨∅⟩

instance : Inhabited AnchorStore := ⟨empty⟩

variable (s : AnchorStore)

def lookup (ski : Octets) : Option Certificate := s.anchors[ski]?

def certificates : List Certificate := s.anchors.toList.map Prod.snd

def size : Nat := s.anchors.size

def isEmpty : Bool := s.anchors.isEmpty

/-- A certificate takes the place of the one with the same identifier. -/
def add (c : Certificate) : Outcome AnchorStore :=
  match c.ski? with
  | some k => .ok ⟨s.anchors.insert k c⟩
  | none => .error (.missing s!"subjectKeyIdentifier in {c.subject}")

def addLog (c : Certificate) : Log :=
  match c.ski? with
  | none => []
  | some k =>
    let replaced := (s.lookup k).map fun old => LogEntry.warn s!"trust anchor {old.subject} replaced"
    .debug s!"adding trust anchor {c.subject} ({Octets.hex k})" :: replaced.toList

def remove (c : Certificate) : Bool × AnchorStore :=
  match c.ski? with
  | some k => (s.anchors.contains k, ⟨s.anchors.erase k⟩)
  | none => (false, s)

def isAnchor (c : Certificate) : Bool := (c.ski?.bind s.lookup).any c.same

/-- One after the other. What was added before a certificate that cannot be added stays. -/
def addAll (s : AnchorStore) : List Certificate → Outcome Unit × AnchorStore
  | [] => (.ok (), s)
  | c :: cs =>
    match s.add c with
    | .ok s => addAll s cs
    | .error e => (.error e, s)

def addAllLog (s : AnchorStore) : List Certificate → Log
  | [] => []
  | c :: cs => s.addLog c ++ (s.add c).log fun s => addAllLog s cs

/-- All certificates are read before the first is added. -/
def load (cs : Outcome (List Certificate)) : Outcome Unit × AnchorStore :=
  match cs with
  | .ok cs => s.addAll cs
  | .error e => (.error e, s)

def loadLog (cs : Outcome (List Certificate)) : Log := cs.log s.addAllLog

def loadPem (text : Octets) : Outcome Unit × AnchorStore := s.load (Certificate.ofPem text)

def loadPemLog (text : Octets) : Log := s.loadLog (Certificate.ofPem text)

end AnchorStore

end Provenance
