import Mathlib.Tactic.Ring
import Provenance.Cbor.Writer

/-!
The language of data items, said without a reader: which octet strings spell an item, and which conditions an item has
to meet beside its spelling.
-/
namespace Provenance.Cbor

def initial (major info : Nat) : UInt8 := .ofNat (32 * major + info)

/-- Additional information, and the octets of the argument that it announces. -/
def announcements : List (Nat × Nat) := [(24, 1), (25, 2), (26, 4), (27, 8)]

/-- A major type with an argument that stands in `width` octets after the initial one. -/
inductive Heading (major n : Nat) : (width : Nat) → Octets → Prop
  | immediate (hn : n < 24) : Heading major n 0 [initial major n]
  | following {info width : Nat} (hw : (info, width) ∈ announcements) (hn : n < 256 ^ width) :
      Heading major n width (initial major info :: Octets.ofNat width n)

/-- `n` parts in a container: their number stands before them, or a break after them. -/
inductive Framed (major n : Nat) (parts : Octets) : Octets → Prop
  | definite {width : Nat} {h : Octets} (hh : Heading major n width h) : Framed major n parts (h ++ parts)
  | indefinite : Framed major n parts (initial major 31 :: (parts ++ [initial 7 31]))

/-- A string of a major type: the octets of its contents after their number, or strings of the type up to a break. -/
inductive StringSpells {α : Type} (major : Nat) (content : α → Octets) (join : List α → α) : Octets → α → Prop
  | definite {a : α} {width : Nat} {h : Octets} (hh : Heading major (content a).length width h) :
      StringSpells major content join (h ++ content a) a
  | indefinite (ps : List (Octets × α)) (hp : ∀ p ∈ ps, StringSpells major content join p.1 p.2) :
      StringSpells major content join (initial major 31 :: (ps.flatMap Prod.fst ++ [initial 7 31]))
        (join (ps.map Prod.snd))

abbrev BytesSpell : Octets → Octets → Prop := StringSpells 2 id List.flatten

abbrev TextSpells : Octets → String → Prop := StringSpells 3 Text.octets String.join

def SimpleSpells (b : Octets) (n : UInt8) : Prop := ∃ width ≤ 1, Heading 7 n.toNat width b

abbrev Piece := Octets × Item

def entryOctets (p : Piece × Piece) : Octets := p.1.1 ++ p.2.1

def entryItems (p : Piece × Piece) : Item × Item := (p.1.2, p.2.2)

inductive Spells : Octets → Item → Prop
  | unsigned {n : UInt64} {width : Nat} {b : Octets} (h : Heading 0 n.toNat width b) : Spells b (.unsigned n)
  | negative {n : UInt64} {width : Nat} {b : Octets} (h : Heading 1 n.toNat width b) : Spells b (.negative n)
  | bytes {b s : Octets} (h : BytesSpell b s) : Spells b (.bytes s)
  | text {b : Octets} {s : String} (h : TextSpells b s) : Spells b (.text s)
  | array {b : Octets} (ps : List Piece) (hf : Framed 4 ps.length (ps.flatMap Prod.fst) b)
      (hp : ∀ p ∈ ps, Spells p.1 p.2) : Spells b (.array (ps.map Prod.snd))
  | map {b : Octets} (ps : List (Piece × Piece)) (hf : Framed 5 ps.length (ps.flatMap entryOctets) b)
      (hk : ∀ p ∈ ps, Spells p.1.1 p.1.2) (hv : ∀ p ∈ ps, Spells p.2.1 p.2.2) :
      Spells b (.map (ps.map entryItems))
  | tag {t : UInt64} {width : Nat} {h b : Octets} {x : Item} (hh : Heading 6 t.toNat width h) (hx : Spells b x) :
      Spells (h ++ b) (.tag t x)
  | half {n : Nat} {b : Octets} (h : Heading 7 n 2 b) : Spells b (.float (.ofNat (Binary64.half.widen n)))
  | single {n : Nat} {b : Octets} (h : Heading 7 n 4 b) : Spells b (.float (.ofNat (Binary64.single.widen n)))
  | double {bits : UInt64} {b : Octets} (h : Heading 7 bits.toNat 8 b) : Spells b (.float bits)
  | no {b : Octets} (h : SimpleSpells b 20) : Spells b (.bool false)
  | yes {b : Octets} (h : SimpleSpells b 21) : Spells b (.bool true)
  | null {b : Octets} (h : SimpleSpells b 22) : Spells b .null
  | undefined {b : Octets} (h : SimpleSpells b 23) : Spells b .undefined
  | simple {n : UInt8} {b : Octets} (hn : n < 20 ∨ 32 ≤ n) (h : SimpleSpells b n) : Spells b (.simple n)

namespace Item

/-- An item stands in another at a level, which is 0 for the whole and grows in arrays, maps and tags. -/
inductive StandsAt (y : Item) : (level : Nat) → Item → Prop
  | whole : StandsAt y 0 y
  | element {n : Nat} {x : Item} {xs : List Item} (hx : x ∈ xs) (h : StandsAt y n x) : StandsAt y (n + 1) (.array xs)
  | key {n : Nat} {e : Item × Item} {es : Entries} (he : e ∈ es) (h : StandsAt y n e.1) : StandsAt y (n + 1) (.map es)
  | value {n : Nat} {e : Item × Item} {es : Entries} (he : e ∈ es) (h : StandsAt y n e.2) :
      StandsAt y (n + 1) (.map es)
  | content {n : Nat} {t : UInt64} {x : Item} (h : StandsAt y n x) : StandsAt y (n + 1) (.tag t x)

def Fits (limit : Nat) (x : Item) : Prop := ∀ y n, StandsAt y n x → n < limit

/-- In no map of the item, at any level, do two keys have the same octets. -/
def KeysDistinct (x : Item) : Prop :=
  ∀ (es : Entries) n, StandsAt (.map es) n x → (es.map fun e => e.1.octets).Nodup

end Item

end Provenance.Cbor
