import Provenance.Proofs.Cbor.RoundTrip
import Provenance.Proofs.Cbor.Shortest

/-!
Decoding and encoding again gives one spelling for all those of an item. It is no longer than any in which every length
is given.
-/
namespace Provenance.Cbor

open Item (StandsAt)

theorem length_flatMap_le {α : Type} {f g : α → Octets} {xs : List α}
    (h : ∀ x ∈ xs, (f x).length ≤ (g x).length) : (xs.flatMap f).length ≤ (xs.flatMap g).length := by
  induction xs with
  | nil => exact le_refl _
  | cons x xs ih =>
    obtain ⟨hx, hxs⟩ := List.forall_mem_cons.mp h
    rw [List.flatMap_cons, List.flatMap_cons, List.length_append, List.length_append]
    exact Nat.add_le_add hx (ih hxs)

section Counts

variable {b : Octets} {x : Item}

theorem StringSpells.length_le {α : Type} {major : Nat} {content : α → Octets} {join : List α → α} {a : α}
    (hjoin : ∀ as, content (join as) = as.flatMap content) (h : StringSpells major content join b a) :
    (content a).length ≤ b.length := by
  induction h with
  | definite hh =>
    rw [List.length_append]
    exact Nat.le_add_left _ _
  | indefinite ps hp ih =>
    have hparts := length_flatMap_le ih
    rw [hjoin, List.flatMap_map]
    simp only [List.length_cons, List.length_append]
    omega

theorem Spells.length_pos (h : Spells b x) : 0 < b.length := by
  obtain ⟨hd, c, d, hc, -, rfl⟩ := head_of_spells h
  have hhead : Yields (Head.read (c ++ [])) hd [] := read_of_headSpells hc []
  obtain ⟨hlt, -⟩ := hhead
  rw [List.append_nil] at hlt
  rw [List.length_append]
  exact Nat.add_pos_left hlt _

theorem Framed.length_le {major n : Nat} {parts : Octets} (h : Framed major n parts b) : parts.length ≤ b.length := by
  cases h with
  | definite => simp
  | indefinite =>
    simp only [List.length_cons, List.length_append]
    omega

theorem Item.Throughout.mono {P Q : Item → Prop} (h : x.Throughout P) (hpq : ∀ y, P y → Q y) : x.Throughout Q :=
  fun y n hy => hpq y (h y n hy)

/-- Nothing in an item counts more than there are octets in its spelling. -/
theorem throughout_count_le_of_spells (h : Spells b x) : x.Throughout (·.count ≤ b.length) := by
  induction h with
  | bytes h => exact (Item.throughout_leaf_iff (by trivial)).mpr (h.length_le fun _ => List.flatMap_id.symm)
  | text h => exact (Item.throughout_leaf_iff (by trivial)).mpr (h.length_le Text.octets_join)
  | array ps hf hp ih =>
    have hparts := hf.length_le
    have hcount : ps.length ≤ (ps.flatMap Prod.fst).length := length_le_flatMap fun p hm => (hp p hm).length_pos
    rw [Item.throughout_array_iff, List.forall_mem_map]
    refine ⟨by rw [Item.count, List.length_map]; omega, ?_⟩
    intro p hm
    have hpart := length_of_mem Prod.fst hm
    exact (ih p hm).mono fun y hy => by omega
  | map ps hf hk hv ihk ihv =>
    have hparts := hf.length_le
    have hentry (p : Piece × Piece) : (entryOctets p).length = p.1.1.length + p.2.1.length := List.length_append
    have hcount : ps.length ≤ (ps.flatMap entryOctets).length := length_le_flatMap fun p hm => by
      rw [hentry]
      exact Nat.add_pos_left (hk p hm).length_pos _
    rw [Item.throughout_map_iff, List.forall_mem_map]
    refine ⟨by rw [Item.count, List.length_map]; omega, ?_⟩
    intro p hm
    have hpart := length_of_mem entryOctets hm
    rw [hentry] at hpart
    exact ⟨(ihk p hm).mono fun y hy => by omega, (ihv p hm).mono fun y hy => by omega⟩
  | tag hh hx ih =>
    rw [Item.throughout_tag_iff]
    refine ⟨Nat.zero_le _, ih.mono ?_⟩
    intro y hy
    rw [List.length_append]
    omega
  | _ => exact (Item.throughout_leaf_iff (by trivial)).mpr (Nat.zero_le _)

theorem counted_of_spells (h : Spells b x) (hlen : b.length < 2 ^ 64) : x.Counted :=
  (throughout_count_le_of_spells h).mono fun _ hy => hy.trans_lt hlen

end Counts

namespace Head

/-- A head that leaves the length of its item to a break. -/
def isOpen : Head → Bool
  | bytes none | text none | array none | map none => true
  | _ => false

/-- The octets behind a head that are no heads, but the contents of a string. -/
def contents : Head → Nat
  | bytes (some n) | text (some n) => n
  | _ => 0

end Head

/-- No item in the octets has an indefinite length, from head to head. -/
def definite (b : Octets) : Bool :=
  match Head.read b with
  | .error _ => true
  | .ok ⟨h, r, _⟩ => !h.isOpen && definite (r.drop h.contents)
termination_by b.length
decreasing_by
  simp only [List.length_drop]
  omega

example : definite [0x81, 0x42, 0x9f, 0xff] = true ∧ definite [0x81, 0x9f, 0xff] = false := by cbv

section Definite

variable {b r s : Octets} {x : Item} {hd : Head}

theorem definite_head (h : HeadSpells b hd) (hs : definite (b ++ s) = true) :
    hd.isOpen = false ∧ definite (s.drop hd.contents) = true := by
  obtain ⟨hlt, e⟩ := read_of_headSpells h s
  rw [definite, e] at hs
  simpa only [Bool.and_eq_true, Bool.not_eq_true'] using hs

/-- The spelling of an item with definite lengths is at least as long as what is written for it, and what comes after
it is taken up from head to head again. -/
def Outlasts (b w : Octets) : Prop :=
  ∀ s, definite (b ++ s) = true → w.length ≤ b.length ∧ definite s = true

theorem outlasts_head {w : Octets} (hd : Head) (h : HeadSpells b hd) (hc : hd.contents = 0) (hw : w.length = hd.size) :
    Outlasts b w := by
  intro s hs
  obtain ⟨-, hs⟩ := definite_head h hs
  rw [hc, List.drop_zero] at hs
  exact ⟨hw.trans_le h.size_le, hs⟩

theorem Outlasts.append {c v w : Octets} (hb : Outlasts b v) (hc : Outlasts c w) : Outlasts (b ++ c) (v ++ w) := by
  intro s hs
  rw [List.append_assoc] at hs
  obtain ⟨hvb, hs⟩ := hb _ hs
  obtain ⟨hwc, hs⟩ := hc _ hs
  rw [List.length_append, List.length_append]
  exact ⟨Nat.add_le_add hvb hwc, hs⟩

theorem outlasts_flatMap {π : Type} {spelled written : π → Octets} {ps : List π}
    (h : ∀ p ∈ ps, Outlasts (spelled p) (written p)) : Outlasts (ps.flatMap spelled) (ps.flatMap written) := by
  induction ps with
  | nil => exact fun s hs => ⟨le_refl _, hs⟩
  | cons p ps ih =>
    obtain ⟨hp, hps⟩ := List.forall_mem_cons.mp h
    rw [List.flatMap_cons, List.flatMap_cons]
    exact hp.append (ih hps)

/-- The heads of a major type that counts what comes after it, with the octets that are not heads for each count. -/
structure Heads (major : Nat) (head : Option Nat → Head) (contents : Nat → Nat) : Prop where
  spells : ∀ c size?, HeadSpells c (head size?) ↔ LengthSpells major c size?
  isOpen : (head none).isOpen = true
  contents : ∀ n, (head (some n)).contents = contents n
  size : ∀ n, (head (some n)).size = Head.shortest n

theorem heads_bytes : Heads 2 .bytes id := ⟨fun _ _ => .rfl, rfl, fun _ => rfl, fun _ => rfl⟩

theorem heads_text : Heads 3 .text id := ⟨fun _ _ => .rfl, rfl, fun _ => rfl, fun _ => rfl⟩

theorem heads_array : Heads 4 .array fun _ => 0 := ⟨fun _ _ => .rfl, rfl, fun _ => rfl, fun _ => rfl⟩

theorem heads_map : Heads 5 .map fun _ => 0 := ⟨fun _ _ => .rfl, rfl, fun _ => rfl, fun _ => rfl⟩

variable {major : Nat} {head : Option Nat → Head} {contents : Nat → Nat} {w : Octets}

theorem Heads.outlasts_open (hh : Heads major head contents) : Outlasts (initial major 31 :: (b ++ [initial 7 31])) w := by
  intro s hs
  rw [append_stop] at hs
  have hclosed := (definite_head ((hh.spells [initial major 31] none).mpr rfl) hs).1
  rw [hh.isOpen] at hclosed
  cases hclosed

theorem Heads.outlasts_framed (hh : Heads major head fun _ => 0) {n : Nat} {parts : Octets}
    (hparts : Outlasts parts w) (h : Framed major n parts b) : Outlasts b (Head.write major n ++ w) := by
  cases h with
  | definite hn =>
    have hhead := (hh.spells _ (some n)).mpr ⟨_, hn⟩
    have hsize : (Head.write major n).length = (head (some n)).size := by rw [Head.length_write, hh.size]
    exact (outlasts_head _ hhead (hh.contents n) hsize).append hparts
  | indefinite => exact hh.outlasts_open

theorem Heads.outlasts_string (hh : Heads major head id) {α : Type} {content : α → Octets} {join : List α → α} {a : α}
    (h : StringSpells major content join b a) :
    Outlasts b (Head.write major (content a).length ++ content a) := by
  cases h with
  | definite hn =>
    intro s hs
    have hhead := (hh.spells _ (some _)).mpr ⟨_, hn⟩
    rw [List.append_assoc] at hs
    have hrest := (definite_head hhead hs).2
    rw [hh.contents, id, List.drop_left] at hrest
    have hle := hhead.size_le
    rw [hh.size] at hle
    rw [List.length_append, List.length_append, Head.length_write]
    exact ⟨Nat.add_le_add_right hle _, hrest⟩
  | indefinite => exact hh.outlasts_open

theorem outlasts_of_spells (h : Spells b x) : Outlasts b x.octets := by
  have simple {n : UInt8} {b : Octets} (h : SimpleSpells b n) : Outlasts b (Head.write 7 n.toNat) :=
    outlasts_head (.simple n) h rfl (Head.length_write _ _)
  induction h with
  | @unsigned n width b h => exact outlasts_head (.unsigned n) ⟨width, h⟩ rfl (Head.length_write _ _)
  | @negative n width b h => exact outlasts_head (.negative n) ⟨width, h⟩ rfl (Head.length_write _ _)
  | bytes h => exact heads_bytes.outlasts_string h
  | text h => exact heads_text.outlasts_string h
  | array ps hf hp ih =>
    rw [Item.octets, Item.octetsOfItems_eq, List.flatMap_map, List.length_map]
    exact heads_array.outlasts_framed (outlasts_flatMap ih) hf
  | map ps hf hk hv ihk ihv =>
    rw [Item.octets, Item.octetsOfEntries_eq, List.flatMap_map, List.length_map]
    apply heads_map.outlasts_framed _ hf
    exact outlasts_flatMap fun p hm => (ihk p hm).append (ihv p hm)
  | @tag t width h b x hh hx ih =>
    exact (outlasts_head (.tag t) ⟨width, hh⟩ rfl (Head.length_write _ _)).append ih
  | @half n b h => exact outlasts_head (.float _) (.inl ⟨n, h, rfl⟩) rfl rfl
  | @single n b h => exact outlasts_head (.float _) (.inr (.inl ⟨n, h, rfl⟩)) rfl rfl
  | @double bits b h => exact outlasts_head (.float bits) (.inr (.inr h)) rfl rfl
  | no h => exact simple h
  | yes h => exact simple h
  | null h => exact simple h
  | undefined h => exact simple h
  | simple hn h => exact simple h

end Definite

/-- All spellings of an item are encoded again to one, which is decoded to the item and is no longer than any of them
without indefinite lengths. No octet string of a machine with words of 64 bits is longer than assumed here. -/
theorem recoding_canonical {b : Octets} {v : Item} (h : decode b = .ok v) (hlen : b.length < 2 ^ 64) :
    ∃ c, encode v = .ok c ∧ decode c = .ok v ∧ (∀ d, decode d = .ok v → (decode d >>= encode) = .ok c) ∧
      (decode c >>= encode) = .ok c ∧ (definite b = true → c.length ≤ b.length) := by
  obtain ⟨hspells, hfits, hkeys⟩ := decode_eq_ok_iff_spells.mp h
  have hassigned := assigned_of_spells hspells
  have hencode : encode v = .ok v.octets := encode_eq_ok_iff.mpr
    ⟨Item.reserved?_eq_none_iff.mpr hassigned, (Item.checkKeys_eq_ok_of_assigned hassigned).mp hkeys, rfl⟩
  have hdecode := decode_of_counted hencode (counted_of_spells hspells hlen) hfits
  have hrecode {d : Octets} (hd : decode d = .ok v) : (decode d >>= encode) = .ok v.octets := by
    rw [hd, ok_bind, hencode]
  refine ⟨v.octets, hencode, hdecode, fun _ => hrecode, hrecode hdecode, ?_⟩
  intro hb
  rw [← List.append_nil b] at hb
  exact (outlasts_of_spells hspells [] hb).1

/-- Wide heads and a wide float: `[1, 1.5]` in twice the octets that it takes. -/
def wideArray : Octets := [0x9a, 0, 0, 0, 2, 0x18, 1, 0xfa, 0x3f, 0xc0, 0, 0]

theorem recoding_canonical_wideArray :
    decode wideArray = .ok (.array [.unsigned 1, .float 0x3ff8000000000000]) ∧ definite wideArray = true ∧
      ∃ c, encode (.array [.unsigned 1, .float 0x3ff8000000000000]) = .ok c ∧ (decode c >>= encode) = .ok c ∧
        c.length ≤ wideArray.length := by
  have h : decode wideArray = .ok (.array [.unsigned 1, .float 0x3ff8000000000000]) := by cbv
  have hdefinite : definite wideArray = true := by cbv
  obtain ⟨c, hencode, -, -, hfixed, hlength⟩ := recoding_canonical h (by decide)
  exact ⟨h, hdefinite, c, hencode, hfixed, hlength hdefinite⟩

end Provenance.Cbor
