import Provenance.Proofs.Cbor.Grammar

/-!
An item and the items in it: induction over them, their levels, and what holds of them all.
-/
namespace Provenance.Cbor.Item

def Leaf : Item → Prop
  | array _ | map _ | tag _ _ => False
  | _ => True

@[induction_eliminator]
theorem induct {motive : Item → Prop} (leaf : ∀ x : Item, x.Leaf → motive x)
    (array : ∀ xs, (∀ x ∈ xs, motive x) → motive (.array xs))
    (map : ∀ es, (∀ e ∈ es, motive e.1) → (∀ e ∈ es, motive e.2) → motive (.map es))
    (tag : ∀ t x, motive x → motive (.tag t x)) (x : Item) : motive x :=
  @Item.rec motive (fun xs => ∀ x ∈ xs, motive x) (fun es => (∀ e ∈ es, motive e.1) ∧ ∀ e ∈ es, motive e.2)
    (fun e => motive e.1 ∧ motive e.2)
    (fun _ => leaf _ trivial) (fun _ => leaf _ trivial) (fun _ => leaf _ trivial) (fun _ => leaf _ trivial)
    array (fun es h => map es h.1 h.2) tag
    (fun _ => leaf _ trivial) (leaf _ trivial) (leaf _ trivial) (fun _ => leaf _ trivial) (fun _ => leaf _ trivial)
    nofun (fun _ _ hx hxs => List.forall_mem_cons.mpr ⟨hx, hxs⟩)
    ⟨nofun, nofun⟩
    (fun _ _ he hes => ⟨List.forall_mem_cons.mpr ⟨he.1, hes.1⟩, List.forall_mem_cons.mpr ⟨he.2, hes.2⟩⟩)
    (fun _ _ hk hv => ⟨hk, hv⟩) x

variable {x y : Item} {n : Nat}

theorem StandsAt.of_leaf (hx : x.Leaf) (h : StandsAt y n x) : y = x ∧ n = 0 := by
  cases h with
  | whole => exact ⟨rfl, rfl⟩
  | element | key | value | content => exact hx.elim

theorem StandsAt.trans {z : Item} {m : Nat} (hz : StandsAt z m y) (hy : StandsAt y n x) : StandsAt z (m + n) x := by
  induction hy with
  | whole => exact hz
  | element hx _ ih => exact .element hx ih
  | key he _ ih => exact .key he ih
  | value he _ ih => exact .value he ih
  | content _ ih => exact .content ih

section Fits

variable {limit : Nat}

theorem not_fits_zero (x : Item) : ¬ x.Fits 0 := by
  intro h
  exact absurd (h x 0 .whole) (by decide)

theorem fits_of_leaf (hx : x.Leaf) : x.Fits (limit + 1) := by
  intro y n hy
  obtain ⟨-, rfl⟩ := hy.of_leaf hx
  exact Nat.succ_pos limit

theorem Fits.mono {limit' : Nat} (h : x.Fits limit) (hle : limit ≤ limit') : x.Fits limit' :=
  fun y n hy => (h y n hy).trans_le hle

theorem fits_array_iff {xs : List Item} : (array xs).Fits (limit + 1) ↔ ∀ x ∈ xs, x.Fits limit := by
  constructor
  · intro h x hx y n hy
    exact Nat.lt_of_succ_lt_succ (h y (n + 1) (.element hx hy))
  · rintro h y n (_ | ⟨hx, hy⟩)
    · exact Nat.succ_pos limit
    · exact Nat.succ_lt_succ (h _ hx y _ hy)

theorem fits_array_of_leaves {α : Type} (item : α → Item) (h : ∀ a, (item a).Leaf) (as : List α) :
    (array (as.map item)).Fits (limit + 2) := by
  rw [fits_array_iff, List.forall_mem_map]
  intro a _
  exact fits_of_leaf (h a)

theorem fits_map_iff {es : Entries} :
    (map es).Fits (limit + 1) ↔ ∀ e ∈ es, e.1.Fits limit ∧ e.2.Fits limit := by
  constructor
  · intro h e he
    constructor
    · intro y n hy
      exact Nat.lt_of_succ_lt_succ (h y (n + 1) (.key he hy))
    · intro y n hy
      exact Nat.lt_of_succ_lt_succ (h y (n + 1) (.value he hy))
  · intro h y n hs
    cases hs with
    | whole => exact Nat.succ_pos limit
    | key he hy => exact Nat.succ_lt_succ ((h _ he).1 y _ hy)
    | value he hy => exact Nat.succ_lt_succ ((h _ he).2 y _ hy)

theorem fits_tag_iff {t : UInt64} : (tag t x).Fits (limit + 1) ↔ x.Fits limit := by
  constructor
  · intro h y n hy
    exact Nat.lt_of_succ_lt_succ (h y (n + 1) (.content hy))
  · intro h y n hs
    cases hs with
    | whole => exact Nat.succ_pos limit
    | content hy => exact Nat.succ_lt_succ (h y _ hy)

end Fits

def Throughout (P : Item → Prop) (x : Item) : Prop := ∀ y n, StandsAt y n x → P y

section Throughout

variable {P : Item → Prop}

theorem Throughout.of_standsAt (h : x.Throughout P) (hy : StandsAt y n x) : y.Throughout P := by
  intro z m hz
  exact h z (m + n) (hz.trans hy)

theorem throughout_leaf_iff (hx : x.Leaf) : x.Throughout P ↔ P x := by
  constructor
  · intro h
    exact h x 0 .whole
  · intro h y n hy
    obtain ⟨rfl, -⟩ := hy.of_leaf hx
    exact h

theorem throughout_array_iff {xs : List Item} :
    (array xs).Throughout P ↔ P (array xs) ∧ ∀ x ∈ xs, x.Throughout P := by
  constructor
  · intro h
    refine ⟨h _ 0 .whole, ?_⟩
    intro x hx y n hy
    exact h y (n + 1) (.element hx hy)
  · rintro ⟨h, hxs⟩ y n (_ | ⟨hx, hy⟩)
    · exact h
    · exact hxs _ hx y _ hy

theorem throughout_map_iff {es : Entries} :
    (map es).Throughout P ↔ P (map es) ∧ ∀ e ∈ es, e.1.Throughout P ∧ e.2.Throughout P := by
  constructor
  · intro h
    refine ⟨h _ 0 .whole, ?_⟩
    intro e he
    constructor
    · intro y n hy
      exact h y (n + 1) (.key he hy)
    · intro y n hy
      exact h y (n + 1) (.value he hy)
  · rintro ⟨h, hes⟩ y n hs
    cases hs with
    | whole => exact h
    | key he hy => exact (hes _ he).1 y _ hy
    | value he hy => exact (hes _ he).2 y _ hy

theorem throughout_tag_iff {t : UInt64} : (tag t x).Throughout P ↔ P (tag t x) ∧ x.Throughout P := by
  constructor
  · intro h
    refine ⟨h _ 0 .whole, ?_⟩
    intro y n hy
    exact h y (n + 1) (.content hy)
  · rintro ⟨h, hx⟩ y n hs
    cases hs with
    | whole => exact h
    | content hy => exact hx y _ hy

end Throughout

end Provenance.Cbor.Item
