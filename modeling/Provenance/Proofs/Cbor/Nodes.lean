import Provenance.Proofs.Cbor.Canonical

/-!
Sums over an item and the items in it. Every node has a head of its own in a spelling, and every string stands in one as
a whole, so a spelling is as long as both together.
-/
namespace Provenance.Cbor

/-- What the elements of a list come to. -/
def sumOf {α : Type} (f : α → Nat) : List α → Nat
  | [] => 0
  | x :: xs => f x + sumOf f xs

theorem sumOf_le_flatMap {α β : Type} {f : β → Nat} {g : α → β} {octets : α → Octets} {xs : List α}
    (h : ∀ x ∈ xs, f (g x) ≤ (octets x).length) : sumOf f (xs.map g) ≤ (xs.flatMap octets).length := by
  induction xs with
  | nil => exact Nat.zero_le _
  | cons x xs ih =>
    obtain ⟨hx, hxs⟩ := List.forall_mem_cons.mp h
    rw [List.map_cons, sumOf, List.flatMap_cons, List.length_append]
    exact Nat.add_le_add hx (ih hxs)

namespace Item

mutual

/-- The sum of `f` over an item and all items in it. -/
def total (f : Item → Nat) : Item → Nat
  | array xs => f (array xs) + totalOfItems f xs
  | map es => f (map es) + totalOfEntries f es
  | tag t x => f (tag t x) + total f x
  | x => f x

def totalOfItems (f : Item → Nat) : List Item → Nat
  | [] => 0
  | x :: xs => total f x + totalOfItems f xs

def totalOfEntries (f : Item → Nat) : List (Item × Item) → Nat
  | [] => 0
  | (k, v) :: es => total f k + total f v + totalOfEntries f es

end

/-- How many octets an item holds itself. -/
def held : Item → Nat
  | bytes b => b.length
  | text s => (Text.octets s).length
  | _ => 0

/-- The octets that an item needs beside those of the items in it: one for its head, and what it holds. -/
def claimed (x : Item) : Nat := 1 + x.held

def nodes : Item → Nat := total fun _ => 1

def stringOctets : Item → Nat := total held

variable {f : Item → Nat} {x : Item}

theorem claimed_array (xs : List Item) : claimed (array xs) = 1 := rfl

theorem claimed_map (es : Entries) : claimed (map es) = 1 := rfl

theorem claimed_tag (t : UInt64) (x : Item) : claimed (tag t x) = 1 := rfl

theorem totalOfItems_eq (f : Item → Nat) (xs : List Item) : totalOfItems f xs = sumOf (total f) xs := by
  induction xs with
  | nil => rfl
  | cons x xs ih => rw [totalOfItems, sumOf, ih]

theorem totalOfEntries_eq (f : Item → Nat) (es : Entries) :
    totalOfEntries f es = sumOf (fun e => total f e.1 + total f e.2) es := by
  induction es with
  | nil => rfl
  | cons e es ih => rw [totalOfEntries, sumOf, ih]

theorem total_array (f : Item → Nat) (xs : List Item) : total f (array xs) = f (array xs) + sumOf (total f) xs := by
  rw [total, totalOfItems_eq]

theorem total_map (f : Item → Nat) (es : Entries) :
    total f (map es) = f (map es) + sumOf (fun e => total f e.1 + total f e.2) es := by
  rw [total, totalOfEntries_eq]

theorem total_of_leaf (hx : x.Leaf) : total f x = f x := by
  cases x with
  | array | map | tag => exact hx.elim
  | _ => rfl

theorem sumOf_add {α : Type} {f g h : α → Nat} {xs : List α} (e : ∀ x ∈ xs, f x + g x = h x) :
    sumOf f xs + sumOf g xs = sumOf h xs := by
  induction xs with
  | nil => rfl
  | cons x xs ih =>
    obtain ⟨hx, hxs⟩ := List.forall_mem_cons.mp e
    rw [sumOf, sumOf, sumOf, ← hx, ← ih hxs]
    exact Nat.add_add_add_comm _ _ _ _

theorem total_add (f g : Item → Nat) (x : Item) : total f x + total g x = total (fun y => f y + g y) x := by
  induction x with
  | leaf x hx => rw [total_of_leaf hx, total_of_leaf hx, total_of_leaf hx]
  | array xs ih =>
    rw [total_array, total_array, total_array, ← sumOf_add ih]
    exact Nat.add_add_add_comm _ _ _ _
  | map es hk hv =>
    have hentries : sumOf (fun e => total f e.1 + total f e.2) es + sumOf (fun e => total g e.1 + total g e.2) es =
        sumOf (fun e => total (fun y => f y + g y) e.1 + total (fun y => f y + g y) e.2) es := by
      apply sumOf_add
      intro e he
      rw [Nat.add_add_add_comm, hk e he, hv e he]
    rw [total_map, total_map, total_map, ← hentries]
    exact Nat.add_add_add_comm _ _ _ _
  | tag t x ih =>
    rw [total, total, total, ← ih]
    exact Nat.add_add_add_comm _ _ _ _

end Item

section Spelled

variable {b : Octets} {x : Item}

theorem Framed.length_lt {major n : Nat} {parts : Octets} (h : Framed major n parts b) : parts.length < b.length := by
  cases h with
  | definite hh =>
    rw [List.length_append]
    exact Nat.lt_add_of_pos_left hh.length_pos
  | indefinite =>
    simp only [List.length_cons, List.length_append]
    omega

theorem StringSpells.length_lt {α : Type} {major : Nat} {content : α → Octets} {join : List α → α} {a : α}
    (hjoin : ∀ as, content (join as) = as.flatMap content) (h : StringSpells major content join b a) :
    (content a).length < b.length := by
  cases h with
  | definite hh =>
    rw [List.length_append]
    exact Nat.lt_add_of_pos_left hh.length_pos
  | indefinite ps hp =>
    have hparts := length_flatMap_le fun p hm => (hp p hm).length_le hjoin
    rw [hjoin, List.flatMap_map]
    simp only [List.length_cons, List.length_append]
    omega

theorem total_claimed_le_of_spells (h : Spells b x) : x.total Item.claimed ≤ b.length := by
  induction h with
  | bytes h =>
    have hlt := h.length_lt fun _ => List.flatMap_id.symm
    rwa [← Nat.one_add_le_iff] at hlt
  | text h =>
    have hlt := h.length_lt Text.octets_join
    rwa [← Nat.one_add_le_iff] at hlt
  | array ps hf hp ih =>
    have hparts := sumOf_le_flatMap ih
    have hlt := hf.length_lt
    rw [Item.total_array, Item.claimed_array]
    omega
  | map ps hf hk hv ihk ihv =>
    have hparts : sumOf (fun e => e.1.total Item.claimed + e.2.total Item.claimed) (ps.map entryItems) ≤
        (ps.flatMap entryOctets).length := by
      apply sumOf_le_flatMap
      intro p hm
      rw [entryOctets, List.length_append]
      exact Nat.add_le_add (ihk p hm) (ihv p hm)
    have hlt := hf.length_lt
    rw [Item.total_map, Item.claimed_map]
    omega
  | tag hh hx ih =>
    have hpos := hh.length_pos
    rw [List.length_append, Item.total, Item.claimed_tag]
    omega
  | unsigned h | negative h | half h | single h | double h => exact h.length_pos
  | no h | yes h | null h | undefined h | simple _ h =>
    obtain ⟨width, -, hh⟩ := h
    exact hh.length_pos

theorem nodes_add_stringOctets_le_of_spells (h : Spells b x) : x.nodes + x.stringOctets ≤ b.length :=
  (Item.total_add _ _ x).trans_le (total_claimed_le_of_spells h)

end Spelled

end Provenance.Cbor
