import Provenance.Text.Json
import Provenance.Trust.Anchors

/-!
Lists of trust anchors as JSON: objects with a certificate in hexadecimal digits and perhaps a label, or the same two
in an array.
-/
namespace Provenance

open Text (Json)

structure AnchorEntry where
  certificate : Octets
  label? : Option String := none

namespace AnchorEntry

def readCertificate? : Json → Option Octets
  | .text ps => (Json.string? ps).bind Octets.ofHex?
  | _ => none

def readLabel? : Json → Option (Option String)
  | .null => some none
  | .text ps => (Json.string? ps).map some
  | _ => none

/-- The values under a key, which is a proper string in any case. -/
def values (name : String) (ms : List (String × Json)) : List Json :=
  (ms.filter (·.1 = name)).map Prod.snd

/-- Other members are passed over; neither of the two may come twice. -/
def ofMembers? (ms : List (List Nat × Json)) : Option AnchorEntry := do
  let ms ← ms.mapM fun m => (Json.string? m.1).map (·, m.2)
  match values "certificate" ms, values "label" ms with
  | [c], [] => return ⟨← readCertificate? c, none⟩
  | [c], [l] => return ⟨← readCertificate? c, ← readLabel? l⟩
  | _, _ => none

def ofJson? : Json → Option AnchorEntry
  | .array [c] => (readCertificate? c).map (⟨·, none⟩)
  | .array [c, l] => do return ⟨← readCertificate? c, ← readLabel? l⟩
  | .object ms => ofMembers? ms
  | _ => none

def toMembers (e : AnchorEntry) : List (String × Json) :=
  ("certificate", .text (Json.points (Octets.hex e.certificate))) ::
    (e.label?.map fun l => [("label", .text (Json.points l))]).getD []

def toJson (e : AnchorEntry) : Json := .object (e.toMembers.map fun m => (Json.points m.1, m.2))

def listOfText? (text : String) : Option (List AnchorEntry) :=
  match Json.parse? text with
  | some (.array vs) => vs.mapM ofJson?
  | _ => none

def listToText (es : List AnchorEntry) : String := Json.render (.array (es.map toJson))

end AnchorEntry

namespace AnchorStore

def certificatesOfText (text : String) : Outcome (List Certificate) :=
  match AnchorEntry.listOfText? text with
  | some es => es.mapM fun e => Certificate.ofDer e.certificate
  | none => .error (.malformed "trust anchor list")

def loadJson (s : AnchorStore) (text : String) : Outcome Unit × AnchorStore := s.load (certificatesOfText text)

/-- The labelled certificates, up to the first entry without a proper one. -/
def labelsLog : List AnchorEntry → Log
  | [] => []
  | e :: es => (Certificate.ofDer e.certificate).log fun c =>
    let labelled := e.label?.map fun l => LogEntry.debug s!"loaded trust anchor \"{l}\": {c.subject}"
    labelled.toList ++ labelsLog es

def loadJsonLog (s : AnchorStore) (text : String) : Log :=
  labelsLog ((AnchorEntry.listOfText? text).getD []) ++ s.loadLog (certificatesOfText text)

end AnchorStore

end Provenance
