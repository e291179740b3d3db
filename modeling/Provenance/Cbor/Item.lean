import Provenance.Octets

/-!
CBOR data items. An item keeps every tag and simple value it was read with, the order of map entries and
the exact bits of floats; how long its heads were and whether lengths were definite is not part of it.
-/
namespace Provenance.Cbor

inductive Item
  | unsigned (n : UInt64)
  /-- The integer `-1 - n`. -/
  | negative (n : UInt64)
  | bytes (b : Octets)
  | text (s : String)
  | array (items : List Item)
  | map (entries : List (Item × Item))
  | tag (number : UInt64) (content : Item)
  | bool (b : Bool)
  | null
  | undefined
  /-- A simple value without a constructor of its own. -/
  | simple (n : UInt8)
  | float (bits : UInt64)
  deriving Inhabited

abbrev Entries := List (Item × Item)

namespace Item

def int? : Item → Option Int
  | unsigned n => some n.toNat
  | negative n => some (-1 - n.toNat)
  | _ => none

def bytes? : Item → Option Octets
  | bytes b => some b
  | _ => none

def text? : Item → Option String
  | text s => some s
  | _ => none

def array? : Item → Option (List Item)
  | array xs => some xs
  | _ => none

def map? : Item → Option Entries
  | map es => some es
  | _ => none

def tag? : Item → Option (UInt64 × Item)
  | tag t x => some (t, x)
  | _ => none

def bool? : Item → Option Bool
  | bool b => some b
  | _ => none

def isNull : Item → Bool
  | null => true
  | _ => false

def ofInt? (i : Int) : Option Item :=
  if 0 ≤ i then if i < 0x10000000000000000 then some (unsigned (.ofNat i.toNat)) else none
  else if -0x10000000000000000 ≤ i then some (negative (.ofNat (-1 - i).toNat)) else none

def label (i : Int64) : Item :=
  if 0 ≤ i then unsigned i.toUInt64 else negative (-1 - i).toUInt64

end Item

namespace Entries

def text? (es : Entries) (key : String) : Option Item :=
  (es.find? fun e => e.1.text? = some key).map Prod.snd

def label? (es : Entries) (label : Int) : Option Item :=
  (es.find? fun e => e.1.int? = some label).map Prod.snd

end Entries

end Provenance.Cbor
