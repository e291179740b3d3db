import Provenance.Text.Utf8
import Provenance.Cbor.Item
import Provenance.Cbor.Head

/-!
The one encoding of an item that this library writes: shortest heads, definite lengths, the narrowest exact
floats. Simple values from 20 to 31 are spelled by other items or by none, so an item that holds one is refused,
and so is a map with two keys of one encoding.
-/
namespace Provenance.Cbor

namespace Item

mutual

/-- The octets of an item; of use only when `reserved?` finds nothing in it. -/
def octets : Item → Octets
  | unsigned n => Head.write 0 n.toNat
  | negative n => Head.write 1 n.toNat
  | bytes b => Head.write 2 b.length ++ b
  | text s => Head.write 3 (Text.octets s).length ++ Text.octets s
  | array xs => Head.write 4 xs.length ++ octetsOfItems xs
  | map es => Head.write 5 es.length ++ octetsOfEntries es
  | tag t x => Head.write 6 t.toNat ++ octets x
  | bool false => Head.write 7 20
  | bool true => Head.write 7 21
  | null => Head.write 7 22
  | undefined => Head.write 7 23
  | simple n => Head.write 7 n.toNat
  | float bits => Head.writeFloat bits.toNat

def octetsOfItems : List Item → Octets
  | [] => []
  | x :: xs => octets x ++ octetsOfItems xs

def octetsOfEntries : List (Item × Item) → Octets
  | [] => []
  | (k, v) :: es => octets k ++ (octets v ++ octetsOfEntries es)

end

mutual

/-- The first simple value, in written order, that no item may hold. -/
def reserved? : Item → Option UInt8
  | array xs => reservedInItems? xs
  | map es => reservedInEntries? es
  | tag _ x => reserved? x
  | simple n => if 20 ≤ n ∧ n < 32 then some n else none
  | _ => none

def reservedInItems? : List Item → Option UInt8
  | [] => none
  | x :: xs => reserved? x <|> reservedInItems? xs

def reservedInEntries? : List (Item × Item) → Option UInt8
  | [] => none
  | (k, v) :: es => reserved? k <|> (reserved? v <|> reservedInEntries? es)

end

def write (x : Item) : Except Flaw Octets :=
  match x.reserved? with
  | some n => .error (.unencodable n)
  | none => .ok x.octets

mutual

/-- No two keys of one map have the same octets, at any depth: inside a key, then the key, then its value. -/
def checkKeys : Item → Except Flaw Unit
  | map es => checkEntries [] es
  | array xs => checkItems xs
  | tag _ x => checkKeys x
  | _ => .ok ()

def checkItems : List Item → Except Flaw Unit
  | [] => .ok ()
  | x :: xs => do
    checkKeys x
    checkItems xs

def checkEntries (seen : List Octets) : List (Item × Item) → Except Flaw Unit
  | [] => .ok ()
  | (k, v) :: es => do
    checkKeys k
    let written ← write k
    if written ∈ seen then throw (.duplicateKey k)
    checkKeys v
    checkEntries (written :: seen) es

end

def toOctets (x : Item) : Except Flaw Octets := do
  x.checkKeys
  x.write

end Item

def encode (x : Item) : Outcome Octets := x.toOctets.mapError (Flaw.fault 0)

end Provenance.Cbor
