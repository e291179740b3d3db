import Provenance.Text.Quoted
import Provenance.Binary64.Shortest
import Provenance.Cbor.Item

/-!
Items in words, for messages.
-/
namespace Provenance.Cbor.Item

def commaList (xs : List String) : String := String.intercalate ", " xs

mutual

def describe : Item → String
  | unsigned n => s!"Integer(Integer({n.toNat}))"
  | negative n => s!"Integer(Integer({-1 - Int.ofNat n.toNat}))"
  | bytes b => s!"Bytes([{commaList (b.map fun x => toString x.toNat)}])"
  | text s => s!"Text({Text.quoted s})"
  | array xs => s!"Array([{commaList (describeItems xs)}])"
  | map es => s!"Map([{commaList (describeEntries es)}])"
  | tag t x => s!"Tag({t.toNat}, {describe x})"
  | bool b => s!"Bool({b})"
  | null => "Null"
  | undefined => "Undefined"
  | simple n => s!"Simple({n.toNat})"
  | float bits => s!"Float({Binary64.render bits.toNat})"

def describeItems : List Item → List String
  | [] => []
  | x :: xs => describe x :: describeItems xs

def describeEntries : List (Item × Item) → List String
  | [] => []
  | (k, v) :: es => s!"({describe k}, {describe v})" :: describeEntries es

end

end Provenance.Cbor.Item
