import Provenance.Cbor.Reader
import Provenance.Cbor.Record
import Provenance.Key.Provider
import Provenance.Key.PublicKey

/-!
Security objects: what the issuer of a document signs. They hold a digest of every data element by namespace and
number, the key of the device that the document was issued to, and how long all this is valid.
-/
namespace Provenance

open Cbor
open Calendar (Instant)

abbrev DigestIds := Std.ExtTreeMap UInt64 Octets

abbrev ValueDigests := Std.ExtTreeMap String DigestIds

structure KeyAuthorizations where
  nameSpaces? : Option (List String) := none
  dataElements? : Option (Std.ExtTreeMap String (List String)) := none

structure DeviceKeyInfo where
  deviceKey : PublicKey
  authorizations? : Option KeyAuthorizations
  info? : Option Entries

structure ValidityInfo where
  signed : Instant
  validFrom : Instant
  validUntil : Instant
  expectedUpdate? : Option Instant
  deriving DecidableEq

structure SecurityObject where
  version : String
  digestAlgorithm : DigestAlgorithm
  docType : String
  valueDigests : ValueDigests
  device : DeviceKeyInfo
  validity : ValidityInfo

namespace KeyAuthorizations

def put (a : KeyAuthorizations) : Option String → Item → Outcome KeyAuthorizations
  | some "nameSpaces", x => do return { a with nameSpaces? := some (← Field.texts "nameSpaces" x) }
  | some "dataElements", x => do
    let m ← Field.table "dataElements" (Field.text "dataElements namespace") Field.texts x
    return { a with dataElements? := some m }
  | _, _ => .ok a

def ofItem : Item → Outcome KeyAuthorizations := Field.record "keyAuthorizations" put {}

end KeyAuthorizations

namespace DeviceKeyInfo

structure Draft where
  deviceKey? : Option PublicKey := none
  authorizations? : Option KeyAuthorizations := none
  info? : Option Entries := none

def Draft.put (d : Draft) : Option String → Item → Outcome Draft
  | some "deviceKey", x => do return { d with deviceKey? := some (← PublicKey.ofMap x) }
  | some "keyAuthorizations", x => do return { d with authorizations? := some (← KeyAuthorizations.ofItem x) }
  | some "keyInfo", x => do return { d with info? := some (← Field.map "keyInfo" x) }
  | _, _ => .ok d

def ofItem (x : Item) : Outcome DeviceKeyInfo := do
  let d ← Field.record "deviceKeyInfo" Draft.put {} x
  let deviceKey ← Field.required "deviceKey" d.deviceKey?
  return ⟨deviceKey, d.authorizations?, d.info?⟩

end DeviceKeyInfo

namespace ValidityInfo

structure Draft where
  signed? : Option Instant := none
  validFrom? : Option Instant := none
  validUntil? : Option Instant := none
  expectedUpdate? : Option Instant := none

def Draft.put (d : Draft) : Option String → Item → Outcome Draft
  | some "signed", x => do return { d with signed? := some (← Field.date "signed" x) }
  | some "validFrom", x => do return { d with validFrom? := some (← Field.date "validFrom" x) }
  | some "validUntil", x => do return { d with validUntil? := some (← Field.date "validUntil" x) }
  | some "expectedUpdate", x => do return { d with expectedUpdate? := some (← Field.date "expectedUpdate" x) }
  | _, _ => .ok d

def ofItem (x : Item) : Outcome ValidityInfo := do
  let d ← Field.record "validityInfo" Draft.put {} x
  let signed ← Field.required "signed" d.signed?
  let validFrom ← Field.required "validFrom" d.validFrom?
  let validUntil ← Field.required "validUntil" d.validUntil?
  return ⟨signed, validFrom, validUntil, d.expectedUpdate?⟩

end ValidityInfo

namespace SecurityObject

def digestIds (ns : String) : Item → Outcome DigestIds :=
  Field.table ns (Field.uint s!"digestID in {ns}") fun id => Field.bytes s!"digest {id.toNat} in {ns}"

def digests : Item → Outcome ValueDigests :=
  Field.table "valueDigests" (Field.text "valueDigests namespace") digestIds

structure Draft where
  version? : Option String := none
  digestName? : Option String := none
  valueDigests? : Option ValueDigests := none
  device? : Option DeviceKeyInfo := none
  docType? : Option String := none
  validity? : Option ValidityInfo := none

def Draft.put (d : Draft) : Option String → Item → Outcome Draft
  | some "version", x => do return { d with version? := some (← Field.text "version" x) }
  | some "digestAlgorithm", x => do return { d with digestName? := some (← Field.text "digestAlgorithm" x) }
  | some "valueDigests", x => do return { d with valueDigests? := some (← digests x) }
  | some "deviceKeyInfo", x => do return { d with device? := some (← DeviceKeyInfo.ofItem x) }
  | some "docType", x => do return { d with docType? := some (← Field.text "docType" x) }
  | some "validityInfo", x => do return { d with validity? := some (← ValidityInfo.ofItem x) }
  | _, _ => .ok d

def checkSize (a : DigestAlgorithm) (ns : String) (id : UInt64) (d : Octets) : Outcome Unit :=
  if d.length = a.size then .ok ()
  else .error (.malformed s!"digest {id.toNat} in {ns} is {d.length} bytes, {a.name} needs {a.size}")

/-- Every digest has the size of the algorithm; the first fault is that of the least namespace and number. -/
def checkSizes (a : DigestAlgorithm) (m : ValueDigests) : Outcome Unit :=
  m.toList.forM fun (ns, ids) => ids.toList.forM fun (id, d) => checkSize a ns id d

def Draft.finish (d : Draft) : Outcome SecurityObject := do
  let version ← Field.required "version" d.version?
  let digestName ← Field.required "digestAlgorithm" d.digestName?
  let valueDigests ← Field.required "valueDigests" d.valueDigests?
  let device ← Field.required "deviceKeyInfo" d.device?
  let docType ← Field.required "docType" d.docType?
  let validity ← Field.required "validityInfo" d.validity?
  let digestAlgorithm ← DigestAlgorithm.ofName digestName
  checkSizes digestAlgorithm valueDigests
  return ⟨version, digestAlgorithm, docType, valueDigests, device, validity⟩

def ofItem (x : Item) : Outcome SecurityObject := Field.record "MobileSecurityObject" Draft.put {} x >>= Draft.finish

/-- A security object as a map of its own or as octets kept encoded under a tag. -/
def ofOuter : Item → Outcome SecurityObject
  | .tag 24 x => Field.encoded "MobileSecurityObjectBytes" (.tag 24 x) >>= Cbor.decode >>= ofItem
  | x => ofItem x

def decode (b : Octets) : Outcome SecurityObject := Cbor.decode b >>= ofOuter

/-- The digests of a namespace; a namespace that is there without any is not an absent one. -/
def digestIds? (o : SecurityObject) (ns : String) : Option DigestIds := o.valueDigests[ns]?

def checkDigest (P : Provider) (o : SecurityObject) (ns : String) (id : UInt64) (item : Octets) : Bool :=
  match (o.digestIds? ns).bind (·[id]?) with
  | some d => P.digest o.digestAlgorithm item = d
  | none => false

end SecurityObject

end Provenance
