import Provenance.Cbor.Alike
import Provenance.Cbor.Field
import Provenance.Key.Curve

/-!
Public keys as documents carry them, and the map of labels and values that one is written as. `point` and `okp`
build keys that fit their curve; a key built by its constructor need not.
-/
namespace Provenance

open Cbor

inductive PublicKey
  | affine (curve : Curve) (x y : Octets)
  | single (curve : Curve) (x : Octets)
  deriving DecidableEq, Repr

namespace PublicKey

namespace Label

def keyType : Int64 := 1
def curve : Int64 := -1
def x : Int64 := -2
def y : Int64 := -3

end Label

def curve : PublicKey → Curve
  | affine c _ _ | single c _ => c

def checkCoordinate (c : Curve) (name : String) (b : Octets) : Outcome Unit :=
  if b.length = c.size then .ok ()
  else .error (.malformed s!"{c.name} {name} coordinate: expecting {c.size} bytes, got {b.length}")

def point (c : Curve) (x y : Octets) : Outcome PublicKey := do
  if c.isOkp then throw (.unsupported s!"{c.name} keys have a single coordinate")
  checkCoordinate c "x" x
  checkCoordinate c "y" y
  return affine c x y

def okp (c : Curve) (x : Octets) : Outcome PublicKey := do
  if !c.isOkp then throw (.unsupported s!"{c.name} keys need both coordinates")
  checkCoordinate c "x" x
  return single c x

def algorithm? (k : PublicKey) : Option Algorithm := k.curve.algorithm?

def ownEntries (k : PublicKey) : Entries :=
  (.label Label.keyType, .unsigned k.curve.keyType) ::
    (.label Label.curve, .unsigned (.ofNat k.curve.id.toNat)) ::
    match k with
    | affine _ x y => [(.label Label.x, .bytes x), (.label Label.y, .bytes y)]
    | single _ x => [(.label Label.x, .bytes x)]

/-- The key as a map; each additional entry replaces the value of a key that is there, or is appended. -/
def toMap (k : PublicKey) (additional : Entries) : Item :=
  .map (additional.foldl (fun es e => Entries.put es e.1 e.2) k.ownEntries)

def required (es : Entries) (name : String) (label : Int64) : Outcome Item :=
  match es.label? label.toInt with
  | some x => .ok x
  | none => .error (.missing s!"COSE_Key {name}")

/-- The key that a map holds; other labels than its own are passed over. -/
def ofMap (x : Item) : Outcome PublicKey := do
  let es ← Field.map "COSE_Key" x
  let kty ← required es "kty" Label.keyType >>= Field.int "COSE_Key kty"
  let curve ← required es "crv" Label.curve >>= Field.int "COSE_Key crv" >>= Curve.ofId
  let x ← required es "x" Label.x >>= Field.bytes "COSE_Key x"
  if kty = 2 then
    match ← required es "y" Label.y with
    | .bool _ => throw (.unsupported "COSE_Key with compressed y coordinate")
    | y => point curve x (← Field.bytes "COSE_Key y" y)
  else if kty = 1 then okp curve x
  else throw (.unsupported s!"COSE_Key kty {kty}")

end PublicKey

end Provenance
