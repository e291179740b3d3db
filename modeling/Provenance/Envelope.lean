import Provenance.Cbor.Reader
import Provenance.Key.Signature

/-!
Signed envelopes (COSE_Sign1): a payload with one signature. What is signed are the octets of the protected header as
they were received, so the header is kept in both forms.
-/
namespace Provenance

open Cbor

structure Envelope where
  protectedHeader : Entries
  unprotectedHeader : Entries
  /-- Absent when it travels apart from the envelope. -/
  payload? : Option Octets
  signature : Octets
  rawProtected : Octets

namespace Envelope

def tagNumber : UInt64 := 18
def algorithmLabel : Int64 := 1
def chainLabel : Int64 := 33

/-- No octets stand for an empty header. -/
def readProtected (raw : Octets) : Outcome Entries :=
  if raw = [] then .ok [] else Cbor.decode raw >>= Field.map "protected"

def payloadOf : Item → Outcome (Option Octets)
  | .null => .ok none
  | .bytes b => .ok (some b)
  | _ => .error (.mistyped "payload MUST be bstr or nil")

def ofArray : List Item → Outcome Envelope
  | [h, u, p, s] => do
    let raw ← Field.bytes "protected" h
    let header ← readProtected raw
    let unprotectedHeader ← Field.map "unprotected" u
    let payload? ← payloadOf p
    let signature ← Field.bytes "signature" s
    return ⟨header, unprotectedHeader, payload?, signature, raw⟩
  | xs => .error (.malformed s!"COSE_Sign1 has {xs.length} elements, expecting 4")

def ofItem : Item → Outcome Envelope
  | .tag t x =>
    if t = tagNumber then Field.array "COSE_Sign1" x >>= ofArray
    else .error (.unsupported s!"tag {t.toNat} in place of COSE_Sign1")
  | x => Field.array "COSE_Sign1" x >>= ofArray

def decode (b : Octets) : Outcome Envelope := Cbor.decode b >>= ofItem

def toItem (e : Envelope) (tagged : Bool) : Item :=
  let body : Item := .array
    [.bytes e.rawProtected, .map e.unprotectedHeader, (e.payload?.map Item.bytes).getD .null, .bytes e.signature]
  if tagged then .tag tagNumber body else body

def encode (e : Envelope) (tagged : Bool) : Outcome Octets := Cbor.encode (e.toItem tagged)

/-- The algorithm, of the protected header before the other; an unknown one is a fault, an absent one is not. -/
def algorithm? (e : Envelope) : Outcome (Option Algorithm) :=
  match e.protectedHeader.label? algorithmLabel.toInt <|> e.unprotectedHeader.label? algorithmLabel.toInt with
  | none => .ok none
  | some x => do return some (← Field.int "alg" x >>= Algorithm.ofId)

def chainOf : Item → Outcome (List Octets)
  | .bytes b => .ok [b]
  | .array [] => .error (.malformed "empty x5chain")
  | .array xs => Field.each "x5chain" Field.bytes 0 xs
  | _ => .error (.mistyped "x5chain MUST be bstr or array of bstr")

/-- The certificates, of the unprotected header before the other. -/
def chain? (e : Envelope) : Outcome (Option (List Octets)) :=
  match e.unprotectedHeader.label? chainLabel.toInt <|> e.protectedHeader.label? chainLabel.toInt with
  | none => .ok none
  | some x => (chainOf x).map some

def chainItem : List Octets → Item
  | [b] => .bytes b
  | bs => .array (bs.map .bytes)

/-- What is signed: the protected header and the payload, each in a string with its length. -/
def signedItem (rawProtected payload : Octets) : Item :=
  .array [.text "Signature1", .bytes rawProtected, .bytes [], .bytes payload]

def signedOctets (rawProtected payload : Octets) : Outcome Octets := Cbor.encode (signedItem rawProtected payload)

def writeProtected (header : Entries) : Outcome Octets :=
  if header.isEmpty then .ok [] else Cbor.encode (.map header)

/-- A new envelope. The payload is signed in any case and carried when `embed` is set. -/
def sign (P : Provider) (k : PrivateKey) (payload : Octets) (a : Algorithm) (header unprotectedHeader : Entries)
    (embed : Bool) : Outcome Envelope := do
  let raw ← writeProtected header
  let signed ← signedOctets raw payload
  let signature ← Provenance.sign P k a signed
  return ⟨header, unprotectedHeader, if embed then some payload else none, signature, raw⟩

/-- The payload of the envelope or the one supplied beside it, of which there has to be exactly one. -/
def effectivePayload (e : Envelope) (detached? : Option Octets) : Outcome Octets :=
  match e.payload?, detached? with
  | some p, none | none, some p => .ok p
  | some _, some _ => .error (.malformed "both embedded and detached payload supplied")
  | none, none => .error (.missing "payload")

/-- Whether the signature is that of the key; a wrong one is no fault. -/
def verify (P : Provider) (k : PublicKey) (detached? : Option Octets) (e : Envelope) (a : Algorithm) :
    Outcome Bool := do
  let payload ← e.effectivePayload detached?
  let signed ← signedOctets e.rawProtected payload
  let native ← k.native P
  Provenance.verify P native a signed e.signature

def verifyLog (P : Provider) (k : PublicKey) (detached? : Option Octets) (e : Envelope) (a : Algorithm) : Log :=
  (k.native P).log fun native => (e.verify P k detached? a).log fun answer =>
    Provenance.verifyLog native a e.signature ++ [.debug s!"COSE_Sign1 {a.name} signature match: {answer}"]

/-- Equality as values: headers entry by entry, all else as it stands. -/
def alike (e f : Envelope) : Bool :=
  Item.alikeEntries e.protectedHeader f.protectedHeader && Item.alikeEntries e.unprotectedHeader f.unprotectedHeader &&
    e.payload? = f.payload? && e.signature = f.signature && e.rawProtected = f.rawProtected

end Envelope

end Provenance
