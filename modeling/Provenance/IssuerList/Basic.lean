import Std.Data.ExtTreeSet
import Provenance.Cbor.Record
import Provenance.Certificate.Basic

/-!
Lists of issuers: the certificates that a provider vouches for, each with the types of documents it may sign.
-/
namespace Provenance

open Cbor
open Calendar (Instant)

structure IssuerEntry where
  certificate : Octets
  docTypes : Std.ExtTreeSet String
  profiles? : Option (List String) := none
  deriving DecidableEq

structure IssuerList where
  version : String := "1.0"
  provider : String
  date : Instant
  nextUpdate? : Option Instant := none
  issueId? : Option UInt64 := none
  entries : List IssuerEntry := []
  deriving DecidableEq

namespace IssuerEntry

def textArray (ss : List String) : Item := .array (ss.map .text)

def toItem (e : IssuerEntry) : Outcome Item := do
  let c ← Certificate.ofDer e.certificate
  let ski ← Field.required s!"subjectKeyIdentifier in {c.subject}" c.ski?
  let profiles : Entries := (e.profiles?.map fun ps => [(.text "certificateProfile", textArray ps)]).getD []
  return .map ([(.text "certificate", .bytes e.certificate),
    (.text "serialNumber", .ofMagnitude (Octets.stripZeros c.serial)),
    (.text "ski", .bytes ski),
    (.text "docType", textArray e.docTypes.toList)] ++ profiles)

structure Draft where
  certificate? : Option Octets := none
  docTypes? : Option (Std.ExtTreeSet String) := none
  profiles? : Option (List String) := none

/-- Serial number and key identifier have to be well formed and are not kept. -/
def Draft.put (d : Draft) : Option String → Item → Outcome Draft
  | some "certificate", x => do return { d with certificate? := some (← Field.bytes "certificate" x) }
  | some "serialNumber", x => (Field.bignum "serialNumber" x).map fun _ => d
  | some "ski", x => (Field.bytes "ski" x).map fun _ => d
  | some "docType", x => do return { d with docTypes? := some (.ofList (← Field.texts "docType" x)) }
  | some "certificateProfile", x => do return { d with profiles? := some (← Field.texts "certificateProfile" x) }
  | _, _ => .ok d

def ofItem (name : String) (x : Item) : Outcome IssuerEntry := do
  let d ← Field.record name Draft.put {} x
  let certificate ← Field.required s!"certificate in {name}" d.certificate?
  let docTypes ← Field.required s!"docType in {name}" d.docTypes?
  return ⟨certificate, docTypes, d.profiles?⟩

end IssuerEntry

namespace IssuerList

def toItem (l : IssuerList) : Outcome Item := do
  let entries ← l.entries.mapM IssuerEntry.toItem
  let nextUpdate : Entries := (l.nextUpdate?.map fun t => [(.text "nextUpdate", .ofInstant t)]).getD []
  let issueId : Entries := (l.issueId?.map fun n => [(.text "vicalIssueID", .unsigned n)]).getD []
  return .map ([(.text "version", .text l.version), (.text "vicalProvider", .text l.provider),
    (.text "date", .ofInstant l.date)] ++ nextUpdate ++ issueId ++ [(.text "certificateInfos", .array entries)])

structure Draft where
  version? : Option String := none
  provider? : Option String := none
  date? : Option Instant := none
  nextUpdate? : Option Instant := none
  issueId? : Option UInt64 := none
  entries? : Option (List IssuerEntry) := none

/-- Entries under a repeated key follow those before. -/
def Draft.put (d : Draft) : Option String → Item → Outcome Draft
  | some "version", x => do return { d with version? := some (← Field.text "version" x) }
  | some "vicalProvider", x => do return { d with provider? := some (← Field.text "vicalProvider" x) }
  | some "date", x => do return { d with date? := some (← Field.date "date" x) }
  | some "nextUpdate", x => do return { d with nextUpdate? := some (← Field.date "nextUpdate" x) }
  | some "vicalIssueID", x => do return { d with issueId? := some (← Field.uint "vicalIssueID" x) }
  | some "certificateInfos", x => do
    let xs ← Field.array "certificateInfos" x
    let more ← Field.each "certificateInfos" IssuerEntry.ofItem 0 xs
    return { d with entries? := some (d.entries?.getD [] ++ more) }
  | _, _ => .ok d

def Draft.finish (d : Draft) : Outcome IssuerList := do
  let version ← Field.required "version" d.version?
  let provider ← Field.required "vicalProvider" d.provider?
  let date ← Field.required "date" d.date?
  let entries ← Field.required "certificateInfos" d.entries?
  return ⟨version, provider, date, d.nextUpdate?, d.issueId?, entries⟩

def ofItem (x : Item) : Outcome IssuerList := Field.record "VICAL" Draft.put {} x >>= Draft.finish

end IssuerList

end Provenance
