import Mathlib.Algebra.BigOperators.Group.List.Basic
import Provenance.Proofs.Binary64
import Provenance.Proofs.Cbor.Language

/-!
What is written spells the item it was written for, so it is read back, floats with all their bits.
-/
namespace Provenance.Cbor

open Item (StandsAt)

theorem heading_write {major n : Nat} (hn : n < 2 ^ 64) : ∃ width, Heading major n width (Head.write major n) := by
  have following {info width : Nat} (hw : (info, width) ∈ announcements) (hlt : n < 256 ^ width) :
      ∃ w, Heading major n w (.ofNat (32 * major + info) :: Octets.ofNat width n) :=
    ⟨width, .following hw hlt⟩
  unfold Head.write
  split
  · next h => exact ⟨0, .immediate h⟩
  split
  · next h => exact following (by decide) h
  split
  · next h => exact following (by decide) h
  split
  · next h => exact following (by decide) h
  · exact following (by decide) hn

theorem spells_writeFloat (bits : UInt64) : Spells (Head.writeFloat bits.toNat) (.float bits) := by
  have word : UInt64.ofNat bits.toNat = bits := UInt64.ofNat_toNat
  unfold Head.writeFloat
  split
  · next n hn =>
    have hlt := Binary64.Format.narrow?_lt (by decide) hn
    have hspell : Spells (initial 7 25 :: Octets.ofNat 2 n) _ := .half (.following (by decide) hlt)
    rwa [Binary64.Format.widen_of_narrow? hn, word] at hspell
  · next n _ hn =>
    have hlt := Binary64.Format.narrow?_lt (by decide) hn
    have hspell : Spells (initial 7 26 :: Octets.ofNat 4 n) _ := .single (.following (by decide) hlt)
    rwa [Binary64.Format.widen_of_narrow? hn, word] at hspell
  · have hdouble : Heading 7 bits.toNat 8 (initial 7 27 :: Octets.ofNat 8 bits.toNat) :=
      .following (by decide) bits.toNat_lt
    exact .double hdouble

theorem simpleSpells_write (n : UInt8) : SimpleSpells (Head.write 7 n.toNat) n := by
  have hn : n.toNat < 0x100 := n.toNat_lt
  by_cases h : n.toNat < 24
  · rw [Head.write, if_pos h]
    exact ⟨0, by decide, .immediate h⟩
  · rw [Head.write, if_neg h, if_pos hn]
    have hnext : Heading 7 n.toNat 1 (initial 7 24 :: Octets.ofNat 1 n.toNat) := .following (by decide) hn
    exact ⟨1, le_refl 1, hnext⟩

theorem Head.shortest_pos (n : Nat) : 0 < Head.shortest n := by
  unfold Head.shortest
  repeat' split
  all_goals decide

theorem Head.length_writeFloat_pos (bits : Nat) : 0 < (Head.writeFloat bits).length := by
  unfold Head.writeFloat
  split <;> exact Nat.succ_pos _

theorem length_octets_pos (x : Item) : 0 < x.octets.length := by
  have hwrite (major n : Nat) : 0 < (Head.write major n).length := by
    rw [Head.length_write]
    exact Head.shortest_pos n
  cases x with
  | bool b => cases b <;> exact hwrite 7 _
  | float bits => exact Head.length_writeFloat_pos _
  | bytes | text | array | map | tag =>
    rw [Item.octets, List.length_append]
    exact Nat.add_pos_left (hwrite _ _) _
  | _ => exact hwrite _ _

theorem length_le_flatMap {α : Type} {octets : α → Octets} {xs : List α} (h : ∀ x ∈ xs, 0 < (octets x).length) :
    xs.length ≤ (xs.flatMap octets).length := by
  rw [List.length_flatMap]
  have hone := List.length_le_sum_of_one_le (xs.map fun x => (octets x).length) ?_
  · rwa [List.length_map] at hone
  · intro n hn
    obtain ⟨x, hx, rfl⟩ := List.mem_map.mp hn
    exact h x hx

theorem length_of_mem {α : Type} (octets : α → Octets) {x : α} {xs : List α} (hx : x ∈ xs) :
    (octets x).length ≤ (xs.flatMap octets).length := by
  obtain ⟨as, bs, rfl⟩ := List.append_of_mem hx
  simp only [List.flatMap_append, List.flatMap_cons, List.length_append]
  omega

theorem spells_array {octets : Item → Octets} {xs : List Item} (h : ∀ x ∈ xs, Spells (octets x) x) {b : Octets}
    (hf : Framed 4 xs.length (xs.flatMap octets) b) : Spells b (.array xs) := by
  have hs : (xs.map fun x => (octets x, x)).map Prod.snd = xs := by
    rw [List.map_map]
    exact List.map_id xs
  rw [← hs]
  apply Spells.array
  · rwa [List.length_map, List.flatMap_map]
  · rwa [List.forall_mem_map]

theorem spells_map {octets : Item → Octets} {es : Entries} (hk : ∀ e ∈ es, Spells (octets e.1) e.1)
    (hv : ∀ e ∈ es, Spells (octets e.2) e.2) {b : Octets}
    (hf : Framed 5 es.length (es.flatMap fun e => octets e.1 ++ octets e.2) b) : Spells b (.map es) := by
  have hs : (es.map fun e => ((octets e.1, e.1), (octets e.2, e.2))).map entryItems = es := by
    rw [List.map_map]
    exact List.map_id es
  rw [← hs]
  apply Spells.map
  · rwa [List.length_map, List.flatMap_map]
  · rwa [List.forall_mem_map]
  · rwa [List.forall_mem_map]

namespace Item

/-- The octets, items or entries of which an item gives the number. -/
def count : Item → Nat
  | bytes b => b.length
  | text s => (Text.octets s).length
  | array xs => xs.length
  | map es => es.length
  | _ => 0

/-- A word of 64 bits holds every count in the item, as it does for all that fits in the memory of a machine. -/
def Counted (x : Item) : Prop := x.Throughout (·.count < 2 ^ 64)

theorem length_octets_entry_pos (e : Item × Item) : 0 < (e.1.octets ++ e.2.octets).length := by
  rw [List.length_append]
  exact Nat.add_pos_left (length_octets_pos e.1) _

theorem count_le_length_octets (x : Item) : x.count ≤ x.octets.length := by
  cases x with
  | bytes | text =>
    rw [octets, List.length_append]
    exact Nat.le_add_left _ _
  | array xs =>
    rw [octets, octetsOfItems_eq, List.length_append]
    exact (length_le_flatMap fun x _ => length_octets_pos x).trans (Nat.le_add_left _ _)
  | map es =>
    rw [octets, octetsOfEntries_eq, List.length_append]
    exact (length_le_flatMap fun e _ => length_octets_entry_pos e).trans (Nat.le_add_left _ _)
  | _ => exact Nat.zero_le _

theorem StandsAt.length_octets_le {x y : Item} {n : Nat} (h : StandsAt y n x) : y.octets.length ≤ x.octets.length := by
  induction h with
  | whole => exact le_refl _
  | @element _ z xs hz _ ih =>
    have hpart := length_of_mem octets hz
    rw [octets, octetsOfItems_eq, List.length_append]
    omega
  | @key _ e es he _ ih =>
    have hpart := length_of_mem (fun e : Item × Item => e.1.octets ++ e.2.octets) he
    rw [List.length_append] at hpart
    rw [octets, octetsOfEntries_eq, List.length_append]
    omega
  | @value _ e es he _ ih =>
    have hpart := length_of_mem (fun e : Item × Item => e.1.octets ++ e.2.octets) he
    rw [List.length_append] at hpart
    rw [octets, octetsOfEntries_eq, List.length_append]
    omega
  | content _ ih =>
    rw [octets, List.length_append]
    omega

theorem counted_of_length {x : Item} (h : x.octets.length < 2 ^ 64) : x.Counted := by
  intro y n hy
  exact (y.count_le_length_octets.trans hy.length_octets_le).trans_lt h

end Item

theorem spells_of_counted {x : Item} (hres : x.reserved? = none) (hc : x.Counted) : Spells x.octets x := by
  induction x with
  | leaf x hx =>
    have hcount := (Item.throughout_leaf_iff hx).mp hc
    cases x with
    | array | map | tag => exact hx.elim
    | unsigned n =>
      obtain ⟨width, h⟩ := heading_write n.toNat_lt
      exact .unsigned h
    | negative n =>
      obtain ⟨width, h⟩ := heading_write n.toNat_lt
      exact .negative h
    | bytes b =>
      obtain ⟨width, h⟩ := heading_write hcount
      exact .bytes (.definite h)
    | text s =>
      obtain ⟨width, h⟩ := heading_write hcount
      exact .text (.definite h)
    | bool b =>
      cases b with
      | false => exact .no (simpleSpells_write 20)
      | true => exact .yes (simpleSpells_write 21)
    | null => exact .null (simpleSpells_write 22)
    | undefined => exact .undefined (simpleSpells_write 23)
    | simple n =>
      have hn : n < 20 ∨ 32 ≤ n := (Item.throughout_leaf_iff hx).mp (Item.reserved?_eq_none_iff.mp hres)
      exact .simple hn (simpleSpells_write n)
    | float bits => exact spells_writeFloat bits
  | array xs ih =>
    rw [Item.reserved?, Item.reservedInItems?_eq_none_iff] at hres
    obtain ⟨hcount, hc⟩ := Item.throughout_array_iff.mp hc
    rw [Item.octets, Item.octetsOfItems_eq]
    obtain ⟨width, h⟩ := heading_write hcount
    apply spells_array _ (.definite h)
    intro x hx
    exact ih x hx (hres x hx) (hc x hx)
  | map es ihk ihv =>
    rw [Item.reserved?, Item.reservedInEntries?_eq_none_iff] at hres
    obtain ⟨hcount, hc⟩ := Item.throughout_map_iff.mp hc
    rw [Item.octets, Item.octetsOfEntries_eq]
    obtain ⟨width, h⟩ := heading_write hcount
    apply spells_map _ _ (.definite h)
    · intro e he
      exact ihk e he (hres e he).1 (hc e he).1
    · intro e he
      exact ihv e he (hres e he).2 (hc e he).2
  | tag t x ih =>
    obtain ⟨width, h⟩ := heading_write t.toNat_lt
    exact .tag h (ih hres (Item.throughout_tag_iff.mp hc).2)

theorem spells_octets {x : Item} (hres : x.reserved? = none) (hlen : x.octets.length < 2 ^ 64) :
    Spells x.octets x :=
  spells_of_counted hres (Item.counted_of_length hlen)

theorem encode_eq_ok_iff {v : Item} {b : Octets} :
    encode v = .ok b ↔ v.reserved? = none ∧ v.KeysDistinct ∧ v.octets = b := by
  rw [encode, mapError_eq_ok_iff, Item.toOctets_eq_ok_iff]
  constructor
  · rintro ⟨hkeys, hres, hb⟩
    exact ⟨hres, (Item.checkKeys_eq_ok_of_assigned (Item.reserved?_eq_none_iff.mp hres)).mp hkeys, hb⟩
  · rintro ⟨hres, hkeys, hb⟩
    exact ⟨(Item.checkKeys_eq_ok_of_assigned (Item.reserved?_eq_none_iff.mp hres)).mpr hkeys, hres, hb⟩

theorem encode_ne_nil {v : Item} {b : Octets} (h : encode v = .ok b) : b ≠ [] := by
  obtain ⟨-, -, rfl⟩ := encode_eq_ok_iff.mp h
  exact List.ne_nil_of_length_pos (length_octets_pos v)

theorem decode_of_counted {v : Item} {b : Octets} (h : encode v = .ok b) (hc : v.Counted)
    (hf : v.Fits (maxNesting + 1)) : decode b = .ok v := by
  obtain ⟨hres, hkeys, rfl⟩ := encode_eq_ok_iff.mp h
  have hspells := spells_of_counted hres hc
  have hk := (Item.checkKeys_eq_ok_of_assigned (assigned_of_spells hspells)).mpr hkeys
  rw [decode_of_spells hspells hf, hk]
  rfl

theorem decode_of_fits {v : Item} {b : Octets} (h : encode v = .ok b) (hlen : b.length < 2 ^ 64)
    (hf : v.Fits (maxNesting + 1)) : decode b = .ok v := by
  have hoctets := (encode_eq_ok_iff.mp h).2.2
  exact decode_of_counted h (Item.counted_of_length (hoctets ▸ hlen)) hf

/-- What is encoded is decoded to the same item, unless its nesting goes beyond the limit, which only the decoder has.
No octet string of a machine with words of 64 bits is longer than assumed here. -/
theorem decode_encode {v : Item} {b : Octets} (h : encode v = .ok b) (hlen : b.length < 2 ^ 64) :
    ((∀ y n, StandsAt y n v → n ≤ maxNesting) → decode b = .ok v) ∧
      ((∃ y n, StandsAt y n v ∧ maxNesting < n) →
        decode b = .error (.malformed s!"CBOR nesting deeper than {maxNesting}")) := by
  obtain ⟨hres, hkeys, rfl⟩ := encode_eq_ok_iff.mp h
  have hspells := spells_octets hres hlen
  constructor
  · intro hn
    have hk := (Item.checkKeys_eq_ok_of_assigned (assigned_of_spells hspells)).mpr hkeys
    rw [decode_of_spells hspells (Item.fits_iff_le.mpr hn), hk]
    rfl
  · rintro ⟨y, n, hy, hn⟩
    apply decode_of_deep hspells
    intro hf
    have hle := Item.fits_iff_le.mp hf y n hy
    omega

def assorted : Item :=
  .map [(.text "id", .array [.unsigned 24, .negative 0xffffffffffffffff, .float 0x3ff8000000000000]),
    (.tag 2 (.bytes [1, 0]), .simple 32)]

def assortedOctets : Octets :=
  [0xa2, 0x62, 0x69, 0x64, 0x83, 0x18, 0x18, 0x3b, 0xff, 0xff, 0xff, 0xff, 0xff, 0xff, 0xff, 0xff, 0xf9, 0x3e, 0x00,
    0xc2, 0x42, 0x01, 0x00, 0xf8, 0x20]

theorem fits_assorted : assorted.Fits (maxNesting + 1) := by
  have hlow {x : Item} (hx : x.Leaf) : x.Fits (126 + 1) := Item.fits_of_leaf hx
  have hhigh {x : Item} (hx : x.Leaf) : x.Fits (127 + 1) := Item.fits_of_leaf hx
  change assorted.Fits (126 + 1 + 1 + 1)
  simp only [assorted, Item.fits_map_iff, Item.fits_array_iff, Item.fits_tag_iff, List.forall_mem_cons]
  exact ⟨⟨hhigh trivial, hlow trivial, hlow trivial, hlow trivial, nofun⟩, ⟨hlow trivial, hhigh trivial⟩, nofun⟩

theorem decode_encode_assorted : encode assorted = .ok assortedOctets ∧ decode assortedOctets = .ok assorted := by
  have hencode : encode assorted = .ok assortedOctets := rfl
  exact ⟨hencode, (decode_encode hencode (by decide)).1 (Item.fits_iff_le.mp fits_assorted)⟩

end Provenance.Cbor
