import Provenance.Calendar.Timestamp
import Provenance.Text.Quoted
import Provenance.Cbor.Item
import Provenance.Fault

/-!
Fields: what an item under a name has to be. Every reader here says in its fault which field it was and what
the field has to hold.
-/
namespace Provenance.Cbor.Field

open Calendar (Instant)

def tagTimestamp : UInt64 := 0
def tagEpoch : UInt64 := 1
def tagBignum : UInt64 := 2
def tagEncoded : UInt64 := 24

def mustBe {α : Type} (name shape : String) : Outcome α := .error (.mistyped s!"{name} MUST be {shape}")

def text (name : String) (x : Item) : Outcome String := (x.text?.map pure).getD (mustBe name "tstr")

def bytes (name : String) (x : Item) : Outcome Octets := (x.bytes?.map pure).getD (mustBe name "bstr")

def int (name : String) (x : Item) : Outcome Int := (x.int?.map pure).getD (mustBe name "int")

def uint (name : String) (x : Item) : Outcome UInt64 := do
  match x with
  | .unsigned n => return n
  | _ => do
    let i ← int name x
    mustBe name s!"uint, got {i}"

def array (name : String) (x : Item) : Outcome (List Item) := (x.array?.map pure).getD (mustBe name "array")

def map (name : String) (x : Item) : Outcome Entries := (x.map?.map pure).getD (mustBe name "map")

def each {α : Type} (name : String) (read : String → Item → Outcome α) (i : Nat) : List Item → Outcome (List α)
  | [] => .ok []
  | x :: xs => do
    let a ← read s!"{name}[{i}]" x
    let as ← each name read (i + 1) xs
    return a :: as

def texts (name : String) (x : Item) : Outcome (List String) := do
  let xs ← array name x
  each name text 0 xs

def timestamp (name s : String) : Outcome Instant :=
  match Calendar.Timestamp.parse s with
  | .ok t => .ok t
  | .error e => .error (.malformed s!"{name}: {Text.quoted s} is not RFC 3339: {e.message}")

def epoch (name : String) (secs : Int) : Outcome Instant :=
  match Instant.of? secs 0 with
  | some t => .ok t
  | none => .error (.malformed s!"{name}: epoch {secs} out of range")

/-- A tagged timestamp, a bare one, or tagged seconds since 1970. -/
def date (name : String) : Item → Outcome Instant
  | .tag 1 x => int name x >>= epoch name
  | .tag 0 x => text name x >>= timestamp name
  | .text s => timestamp name s
  | .tag t _ => .error (.unsupported s!"{name}: date with tag {t.toNat}")
  | _ => mustBe name "tdate"

/-- The magnitude without leading zeros, of a tagged string or of a plain unsigned integer. -/
def bignum (name : String) : Item → Outcome Octets
  | .tag 2 x => (bytes name x).map Octets.stripZeros
  | .unsigned n => .ok (Octets.minimal n.toNat)
  | .negative n => (uint name (.negative n)).map fun n => Octets.minimal n.toNat
  | _ => mustBe name "#6.2(bstr)"

def encoded (name : String) : Item → Outcome Octets
  | .tag 24 (.bytes b) => .ok b
  | .tag 24 _ => mustBe name "#6.24(bstr), got a different tag content"
  | .tag t _ => .error (.mistyped s!"{name}: expecting tag {tagEncoded.toNat}, got {t.toNat}")
  | _ => mustBe name "tagged"

end Provenance.Cbor.Field

namespace Provenance.Cbor.Item

open Calendar (Instant Timestamp.render Timestamp.Zone)

def ofInstant (t : Instant) : Item := tag Field.tagTimestamp (text (Timestamp.render .zulu t))

def ofMagnitude (b : Octets) : Item := tag Field.tagBignum (bytes b)

def ofEncoded (b : Octets) : Item := tag Field.tagEncoded (bytes b)

end Provenance.Cbor.Item
