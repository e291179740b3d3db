import Provenance.Cbor.Item

/-!
Equality of items as values: floats are compared as numbers, so zeros of either sign are alike and a NaN is not
alike to itself. All else is compared as it stands.
-/
namespace Provenance.Cbor.Item

/-- Neither is a NaN, and they have the same bits or are both zero. -/
def sameNumber (a b : UInt64) : Bool :=
  let magnitude (x : UInt64) := x &&& 0x7fffffffffffffff
  magnitude a ≤ 0x7ff0000000000000 ∧ magnitude b ≤ 0x7ff0000000000000 ∧ (a = b ∨ magnitude a = 0 ∧ magnitude b = 0)

mutual

def alike : Item → Item → Bool
  | unsigned a, unsigned b => a = b
  | negative a, negative b => a = b
  | bytes a, bytes b => a = b
  | text a, text b => a = b
  | array a, array b => alikeItems a b
  | map a, map b => alikeEntries a b
  | tag a x, tag b y => a = b && alike x y
  | bool a, bool b => a = b
  | null, null => true
  | undefined, undefined => true
  | simple a, simple b => a = b
  | float a, float b => sameNumber a b
  | _, _ => false

def alikeItems : List Item → List Item → Bool
  | [], [] => true
  | x :: xs, y :: ys => alike x y && alikeItems xs ys
  | _, _ => false

def alikeEntries : List (Item × Item) → List (Item × Item) → Bool
  | [], [] => true
  | (k, v) :: xs, (l, w) :: ys => alike k l && (alike v w && alikeEntries xs ys)
  | _, _ => false

end

end Provenance.Cbor.Item

namespace Provenance.Cbor.Entries

/-- Replaces the first value under an alike key, or appends the entry. -/
def put (es : Entries) (k v : Item) : Entries :=
  match es with
  | [] => [(k, v)]
  | (l, w) :: rest => if l.alike k then (l, v) :: rest else (l, w) :: put rest k v

end Provenance.Cbor.Entries
