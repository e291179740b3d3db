import Mathlib.Data.List.Forall2
import Provenance.Cbor.Alike
import Provenance.Proofs.Cbor.Parts

/-!
When items are alike: both are free of NaNs and they differ in no more than the signs of zeros. So likeness is a partial
equivalence, and an item with a NaN anywhere in it is like no item at all.
-/
namespace Provenance.Cbor.Item

/-- The bits of a float without its sign. -/
def magnitude (bits : UInt64) : UInt64 := bits &&& 0x7fffffffffffffff

def unsignedZero (bits : UInt64) : UInt64 := if magnitude bits = 0 then 0 else bits

/-- A float that is a number, or an item that is no float. -/
def NotNan : Item → Prop
  | float bits => magnitude bits ≤ 0x7ff0000000000000
  | _ => True

theorem sameNumber_iff {a b : UInt64} :
    sameNumber a b = true ↔ (NotNan (.float a) ∧ NotNan (.float b)) ∧ unsignedZero a = unsignedZero b := by
  have hzero : magnitude 0 = 0 := by decide
  change decide (magnitude a ≤ _ ∧ magnitude b ≤ _ ∧ (a = b ∨ magnitude a = 0 ∧ magnitude b = 0)) = true ↔ _
  rw [decide_eq_true_eq, ← and_assoc]
  simp only [NotNan, unsignedZero]
  refine and_congr_right fun _ => ?_
  constructor
  · rintro (rfl | ⟨ha, hb⟩)
    · rfl
    · rw [if_pos ha, if_pos hb]
  · intro h
    split at h
    · next ha =>
      split at h
      · next hb => exact .inr ⟨ha, hb⟩
      · next hb => exact absurd (h ▸ hzero) hb
    · next ha =>
      split at h
      · exact absurd (h ▸ hzero) ha
      · exact .inl h

mutual

/-- The item with a plus for the sign of each zero in it. -/
def unsignedZeros : Item → Item
  | array xs => array (unsignedZerosInItems xs)
  | map es => map (unsignedZerosInEntries es)
  | tag t x => tag t (unsignedZeros x)
  | float bits => float (unsignedZero bits)
  | x => x

def unsignedZerosInItems : List Item → List Item
  | [] => []
  | x :: xs => unsignedZeros x :: unsignedZerosInItems xs

def unsignedZerosInEntries : List (Item × Item) → List (Item × Item)
  | [] => []
  | (k, v) :: es => (unsignedZeros k, unsignedZeros v) :: unsignedZerosInEntries es

end

theorem unsignedZerosInItems_eq (xs : List Item) : unsignedZerosInItems xs = xs.map unsignedZeros := by
  induction xs with
  | nil => rfl
  | cons x xs ih => rw [unsignedZerosInItems, ih, List.map_cons]

theorem unsignedZerosInEntries_eq (es : Entries) :
    unsignedZerosInEntries es = es.map fun e => (unsignedZeros e.1, unsignedZeros e.2) := by
  induction es with
  | nil => rfl
  | cons e es ih => rw [unsignedZerosInEntries, ih, List.map_cons]

theorem alikeItems_iff {xs ys : List Item} :
    alikeItems xs ys = true ↔ List.Forall₂ (fun x y => x.alike y = true) xs ys := by
  induction xs generalizing ys with
  | nil => cases ys <;> simp [alikeItems]
  | cons x xs ih => cases ys <;> simp [alikeItems, ih]

theorem alikeEntries_iff {es fs : Entries} :
    alikeEntries es fs = true ↔ List.Forall₂ (fun e f => e.1.alike f.1 = true ∧ e.2.alike f.2 = true) es fs := by
  induction es generalizing fs with
  | nil => cases fs <;> simp [alikeEntries]
  | cons e es ih => cases fs <;> simp [alikeEntries, ih, and_assoc]

/-- A relation that compares elements by what `g` makes of them compares lists so too. -/
theorem forall₂_iff_map_eq {α β : Type} {R : α → α → Prop} {P : α → Prop} {g : α → β} {xs ys : List α}
    (h : ∀ x ∈ xs, ∀ y, R x y ↔ (P x ∧ P y) ∧ g x = g y) :
    List.Forall₂ R xs ys ↔ ((∀ x ∈ xs, P x) ∧ ∀ y ∈ ys, P y) ∧ xs.map g = ys.map g := by
  induction xs generalizing ys with
  | nil => cases ys <;> simp
  | cons x xs ih =>
    rw [List.forall_mem_cons] at h
    cases ys with
    | nil => simp
    | cons y ys =>
      simp only [List.forall₂_cons, h.1, ih h.2, List.forall_mem_cons, List.map_cons, List.cons.injEq]
      tauto

variable {x y z : Item}

theorem alike_iff_of_leaf (hx : x.Leaf) (hy : y.Leaf) :
    x.alike y = true ↔ (NotNan x ∧ NotNan y) ∧ x.unsignedZeros = y.unsignedZeros := by
  cases x with
  | array | map | tag => exact hx.elim
  | float a =>
    cases y with
    | float b => simp only [alike, sameNumber_iff, unsignedZeros, float.injEq]
    | _ => simp [alike, unsignedZeros]
  | _ =>
    cases y with
    | array | map | tag => exact hy.elim
    | _ => simp [alike, unsignedZeros, NotNan]

theorem alike_iff :
    x.alike y = true ↔ (x.Throughout NotNan ∧ y.Throughout NotNan) ∧ x.unsignedZeros = y.unsignedZeros := by
  induction x generalizing y with
  | leaf x hx =>
    by_cases hy : y.Leaf
    · rw [throughout_leaf_iff hx, throughout_leaf_iff hy]
      exact alike_iff_of_leaf hx hy
    · cases x with
      | array | map | tag => exact hx.elim
      | _ =>
        cases y with
        | array | map | tag => simp [alike, unsignedZeros]
        | _ => exact (hy trivial).elim
  | array xs ih =>
    cases y with
    | array ys =>
      simp only [alike, alikeItems_iff, unsignedZeros, unsignedZerosInItems_eq, array.injEq, throughout_array_iff,
        NotNan, true_and]
      exact forall₂_iff_map_eq fun x hx y => ih x hx
    | _ => simp [alike, unsignedZeros]
  | map es ihk ihv =>
    cases y with
    | map fs =>
      simp only [alike, alikeEntries_iff, unsignedZeros, unsignedZerosInEntries_eq, map.injEq, throughout_map_iff,
        NotNan, true_and]
      apply forall₂_iff_map_eq
      intro e he f
      rw [ihk e he, ihv e he, Prod.mk.injEq]
      tauto
    | _ => simp [alike, unsignedZeros]
  | tag t x ih =>
    cases y with
    | tag u y =>
      simp only [alike, Bool.and_eq_true, decide_eq_true_eq, ih, unsignedZeros, tag.injEq, throughout_tag_iff, NotNan,
        true_and]
      tauto
    | _ => simp [alike, unsignedZeros]

theorem alike_symm (h : x.alike y = true) : y.alike x = true := by
  rw [alike_iff] at h ⊢
  exact ⟨h.1.symm, h.2.symm⟩

def HasNan (x : Item) : Prop := ∃ bits n, StandsAt (.float bits) n x ∧ 0x7ff0000000000000 < magnitude bits

theorem not_hasNan_iff : ¬ x.HasNan ↔ x.Throughout NotNan := by
  constructor
  · intro h y n hy
    cases y with
    | float bits => exact UInt64.not_lt.mp fun hlt => h ⟨bits, n, hy, hlt⟩
    | _ => trivial
  · rintro h ⟨bits, n, hy, hlt⟩
    exact UInt64.not_lt.mpr (h _ n hy) hlt

/-- Only an item with a NaN in it is not like itself. -/
theorem alike_self_iff : x.alike x = true ↔ ¬ x.HasNan := by
  rw [alike_iff, and_self, and_iff_left rfl, not_hasNan_iff]

theorem not_hasNan_of_alike (h : x.alike y = true) : ¬ x.HasNan ∧ ¬ y.HasNan := by
  rw [not_hasNan_iff, not_hasNan_iff]
  exact (alike_iff.mp h).1

end Provenance.Cbor.Item
