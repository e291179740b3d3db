import Provenance.Command.Output
import Provenance.Command.Request
import Provenance.IssuerAuth
import Provenance.IssuerList.Signed
import Provenance.Trust.AnchorList
import Provenance.Trust.Verdict

/-!
Reports on requests. What a request prints before it fails stays printed; whether it succeeded is the last thing that a
report says. Log entries are printed among the rest: warnings always, those for debugging if asked for.
-/
namespace Provenance.Command

open Calendar (Instant Timestamp.render)

structure Surroundings where
  now : Instant
  file : String → Except String Octets

namespace AnchorFile

def load (text : String) : AnchorFile → Outcome Unit × AnchorStore
  | bundle _ => AnchorStore.empty.loadPem (Text.octets text)
  | list _ => AnchorStore.empty.loadJson text

def loadLog (text : String) : AnchorFile → Log
  | bundle _ => AnchorStore.empty.loadPemLog (Text.octets text)
  | list _ => AnchorStore.empty.loadJsonLog text

end AnchorFile

/-- A report that is being written: what it prints, and why it breaks off. -/
abbrev Report := ExceptT String (StateM (List Printed))

namespace Report

def say (t : String) : Report Unit := modify (· ++ [.text t])

def note (log : Log) : Report Unit := modify (· ++ log.map .entry)

def ofOutcome {α : Type} : Outcome α → Report α
  | .ok a => return a
  | .error e => throw e.message

def ofFile (s : Surroundings) (path : String) : Report Octets :=
  match s.file path with
  | .ok b => return b
  | .error e => throw e

def ofTextFile (s : Surroundings) (path : String) : Report String := do
  match Text.ofOctets? (← ofFile s path) with
  | some t => return t
  | none => throw "stream did not contain valid UTF-8"

def ofAnchors (s : Surroundings) (f : AnchorFile) : Report AnchorStore := do
  let text ← ofTextFile s f.path
  note (f.loadLog text)
  ofOutcome (f.load text).1
  return (f.load text).2

def ofFault? : Option TrustFault → Report Unit
  | none => return ()
  | some e => throw s!"untrusted chain: {e.message}"

/-- The chain that was found and whether it is trusted. A store without anchors trusts none. -/
def trust (P : Provider) (s : Surroundings) (title : String) (chain : List Certificate) (store : AnchorStore) :
    Report Unit := do
  say s!"{title} chain:"
  note (TrustPolicy.verifyLog { store } P chain [] s.now)
  let v := TrustPolicy.verify { store } P chain [] s.now
  (v.chain.zip (List.range v.chain.length)).forM fun (c, i) => say s!"  [{i}] {c.subject}"
  ofFault? v.fault?

def rfc3339 (t : Instant) : String := Timestamp.render .zero t

def issuerEntry (e : IssuerEntry) : Report Unit := do
  let c ← ofOutcome (Certificate.ofDer e.certificate)
  let docTypes := ", ".intercalate e.docTypes.toList
  say s!"- {c.subject} [{docTypes}]"

def issuerList (P : Provider) (s : Surroundings) (path : String) (anchors? : Option AnchorFile) : Report Unit := do
  let store? ← anchors?.mapM (ofAnchors s)
  let b ← ofFile s path
  note (SignedIssuerList.parseLog P b)
  let signed ← ofOutcome (SignedIssuerList.parse P b)
  let l := signed.list
  say s!"provider: {l.provider} (version {l.version})"
  say s!"date: {rfc3339 l.date}"
  l.nextUpdate?.forM fun t => say s!"next update: {rfc3339 t}"
  l.issueId?.forM fun n => say s!"issue id: {n.toNat}"
  l.entries.forM issuerEntry
  store?.forM (trust P s "provider" signed.chain)

def digestIds (ns : String) (ids : DigestIds) : Report Unit :=
  let numbers := ", ".intercalate (ids.toList.map fun e => toString e.1.toNat)
  say s!"{ns}: [{numbers}]"

def issuerAuth (P : Provider) (s : Surroundings) (path : String) (anchors? : Option AnchorFile) : Report Unit := do
  let store? ← anchors?.mapM (ofAnchors s)
  let b ← ofFile s path
  let a ← ofOutcome (IssuerAuth.decode b)
  note (a.verifyLog P)
  ofOutcome (a.verifySignature P)
  let o := a.object
  say s!"docType: {o.docType}"
  say s!"digest algorithm: {o.digestAlgorithm.name}"
  say s!"valid from {rfc3339 o.validity.validFrom} until {rfc3339 o.validity.validUntil}"
  o.valueDigests.toList.forM fun (ns, ids) => digestIds ns ids
  store?.forM (trust P s "document signer" a.chain)

/-- A text of 13 octets is taken for the shorter form. -/
def time (s : Surroundings) : TimeRequest → Report Unit
  | .decode text => do
    let format := if text.utf8ByteSize = 13 then Asn1.TimeFormat.utc else .generalized
    let t ← ofOutcome (Asn1.Time.decode format text)
    say (rfc3339 t)
  | .encodeNow format => do
    let text ← ofOutcome (Asn1.Time.encode format s.now)
    say text
  | .nothing => throw "one of --decode or --encode-now is required"

end Report

def Output.ofReport (verbose : Bool) (r : Report Unit) (success : List String) (failure : String) : Output :=
  match r.run.run [] with
  | (.ok _, printed) => ⟨printed.filter (Printed.isShown verbose) ++ success.map .text, []⟩
  | (.error e, printed) => ⟨printed.filter (Printed.isShown verbose), [s!"{failure}: {e}"]⟩

def Request.answer (P : Provider) (s : Surroundings) (r : Request) : Output :=
  match r.task with
  | .issuerList p a? =>
    .ofReport r.verbose (Report.issuerList P s p a?) ["VICAL verification successful"] "VICAL verification failed"
  | .issuerAuth p a? =>
    .ofReport r.verbose (Report.issuerAuth P s p a?) ["issuerAuth verification successful"]
      "issuerAuth verification failed"
  | .time t => .ofReport r.verbose (Report.time s t) [] "time conversion failed"

end Provenance.Command
