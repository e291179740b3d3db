import Mathlib.Data.List.Nodup
import Provenance.Cbor.Writer
import Provenance.Proofs.Outcome
import Provenance.Proofs.Cbor.Parts

/-!
Which items have octets: those without reserved simple values, and without two keys of one encoding in a map.
-/
namespace Provenance.Cbor.Item

theorem octetsOfItems_eq (xs : List Item) : octetsOfItems xs = xs.flatMap octets := by
  induction xs with
  | nil => rfl
  | cons x xs ih => rw [octetsOfItems, ih, List.flatMap_cons]

theorem octetsOfEntries_eq (es : Entries) : octetsOfEntries es = es.flatMap fun e => e.1.octets ++ e.2.octets := by
  induction es with
  | nil => rfl
  | cons e es ih => rw [octetsOfEntries, ih, List.flatMap_cons, List.append_assoc]

/-- Simple values from 20 to 31 are spelled by other items or by none. -/
def Assigned : Item → Prop
  | simple n => n < 20 ∨ 32 ≤ n
  | _ => True

theorem reservedInItems?_eq_none_iff {xs : List Item} :
    reservedInItems? xs = none ↔ ∀ x ∈ xs, x.reserved? = none := by
  induction xs with
  | nil => simp [reservedInItems?]
  | cons x xs ih => simp [reservedInItems?, ih]

theorem reservedInEntries?_eq_none_iff {es : Entries} :
    reservedInEntries? es = none ↔ ∀ e ∈ es, e.1.reserved? = none ∧ e.2.reserved? = none := by
  induction es with
  | nil => simp [reservedInEntries?]
  | cons e es ih => simp [reservedInEntries?, ih, and_assoc]

theorem reserved?_eq_none_iff {x : Item} : x.reserved? = none ↔ x.Throughout Assigned := by
  induction x with
  | leaf x hx =>
    rw [throughout_leaf_iff hx]
    cases x with
    | array | map | tag => exact hx.elim
    | simple n => simp only [reserved?, Assigned]; grind
    | _ => simp [reserved?, Assigned]
  | array xs ih =>
    rw [reserved?, reservedInItems?_eq_none_iff, throughout_array_iff]
    simp only [Assigned, true_and]
    exact forall₂_congr ih
  | map es ihk ihv =>
    rw [reserved?, reservedInEntries?_eq_none_iff, throughout_map_iff]
    simp only [Assigned, true_and]
    exact forall₂_congr fun e he => and_congr (ihk e he) (ihv e he)
  | tag t x ih =>
    rw [reserved?, ih, throughout_tag_iff]
    simp only [Assigned, true_and]

theorem write_eq_ok_iff {x : Item} {b : Octets} : x.write = .ok b ↔ x.reserved? = none ∧ x.octets = b := by
  unfold write
  cases x.reserved? with
  | none => simp
  | some n => simp

def KeyedApart : Item → Prop
  | map es => (∀ e ∈ es, e.1.reserved? = none) ∧ (es.map fun e => e.1.octets).Nodup
  | _ => True

theorem checkItems_eq_ok_iff {xs : List Item} : checkItems xs = .ok () ↔ ∀ x ∈ xs, x.checkKeys = .ok () := by
  induction xs with
  | nil => simp [checkItems]
  | cons x xs ih => rw [checkItems, then_eq_ok_iff, ih, List.forall_mem_cons]

theorem checkEntries_eq_ok_iff {seen : List Octets} {es : Entries} :
    checkEntries seen es = .ok () ↔ (∀ e ∈ es, e.1.checkKeys = .ok () ∧ e.2.checkKeys = .ok ()) ∧
      (∀ e ∈ es, e.1.reserved? = none) ∧ (es.map fun e => e.1.octets).Nodup ∧ ∀ e ∈ es, e.1.octets ∉ seen := by
  induction es generalizing seen with
  | nil => simp [checkEntries]
  | cons e es ih =>
    rw [checkEntries, then_eq_ok_iff, bind_eq_ok_iff]
    simp only [write_eq_ok_iff, refuse_eq_ok_iff, then_eq_ok_iff, ih, List.forall_mem_cons, List.map_cons,
      List.nodup_cons]
    constructor
    · rintro ⟨hk, b, ⟨hr, rfl⟩, hseen, hv, hes, hrs, hnodup, hnew⟩
      refine ⟨⟨⟨hk, hv⟩, hes⟩, ⟨hr, hrs⟩, ⟨?_, hnodup⟩, hseen, ?_⟩
      · intro hm
        obtain ⟨f, hf, heq⟩ := List.mem_map.mp hm
        exact hnew f hf (heq ▸ List.mem_cons_self)
      · intro f hf hm
        exact hnew f hf (List.mem_cons_of_mem _ hm)
    · rintro ⟨⟨⟨hk, hv⟩, hes⟩, ⟨hr, hrs⟩, ⟨hfirst, hnodup⟩, hseen, hnew⟩
      refine ⟨hk, _, ⟨hr, rfl⟩, hseen, hv, hes, hrs, hnodup, ?_⟩
      intro f hf hm
      obtain heq | hm := List.mem_cons.mp hm
      · exact hfirst (heq ▸ List.mem_map_of_mem hf)
      · exact hnew f hf hm

theorem checkKeys_eq_ok_iff {x : Item} : x.checkKeys = .ok () ↔ x.Throughout KeyedApart := by
  induction x with
  | leaf x hx =>
    rw [throughout_leaf_iff hx]
    cases x with
    | array | map | tag => exact hx.elim
    | _ => simp [checkKeys, KeyedApart]
  | array xs ih =>
    rw [checkKeys, checkItems_eq_ok_iff, throughout_array_iff]
    simp only [KeyedApart, true_and]
    exact forall₂_congr ih
  | map es ihk ihv =>
    rw [checkKeys, checkEntries_eq_ok_iff, throughout_map_iff, KeyedApart]
    simp only [List.not_mem_nil, not_false_eq_true, implies_true, and_true]
    rw [and_comm]
    exact and_congr_right fun _ => forall₂_congr fun e he => and_congr (ihk e he) (ihv e he)
  | tag t x ih =>
    rw [checkKeys, ih, throughout_tag_iff]
    simp only [KeyedApart, true_and]

theorem error_of_checkItems {xs : List Item} {e : Flaw} (h : checkItems xs = .error e) :
    ∃ x ∈ xs, x.checkKeys = .error e := by
  induction xs with
  | nil => cases h
  | cons x xs ih =>
    obtain h | ⟨_, -, h⟩ := bind_eq_error_iff.mp h
    · exact ⟨x, List.mem_cons_self, h⟩
    · obtain ⟨y, hy, h⟩ := ih h
      exact ⟨y, List.mem_cons_of_mem x hy, h⟩

theorem error_of_checkEntries {seen : List Octets} {es : Entries} {e : Flaw} (h : checkEntries seen es = .error e) :
    (∃ n, e = .unencodable n) ∨ (∃ k, e = .duplicateKey k) ∨
      ∃ f ∈ es, f.1.checkKeys = .error e ∨ f.2.checkKeys = .error e := by
  induction es generalizing seen with
  | nil => cases h
  | cons f es ih =>
    obtain h | ⟨_, -, h⟩ := bind_eq_error_iff.mp h
    · exact .inr (.inr ⟨f, List.mem_cons_self, .inl h⟩)
    obtain h | ⟨b, -, h⟩ := bind_eq_error_iff.mp h
    · unfold write at h
      split at h
      · cases h
        exact .inl ⟨_, rfl⟩
      · cases h
    split at h
    · cases h
      exact .inr (.inl ⟨_, rfl⟩)
    obtain h | ⟨_, -, h⟩ := bind_eq_error_iff.mp h
    · exact .inr (.inr ⟨f, List.mem_cons_self, .inr h⟩)
    obtain h | h | ⟨g, hg, h⟩ := ih h
    · exact .inl h
    · exact .inr (.inl h)
    · exact .inr (.inr ⟨g, List.mem_cons_of_mem f hg, h⟩)

theorem error_of_checkKeys {x : Item} {e : Flaw} (h : x.checkKeys = .error e) :
    (∃ n, e = .unencodable n) ∨ ∃ k, e = .duplicateKey k := by
  induction x with
  | leaf x hx =>
    cases x with
    | array | map | tag => exact hx.elim
    | _ => cases h
  | array xs ih =>
    obtain ⟨x, hx, h⟩ := error_of_checkItems h
    exact ih x hx h
  | map es ihk ihv =>
    obtain hn | hk | ⟨f, hf, h | h⟩ := error_of_checkEntries h
    · exact .inl hn
    · exact .inr hk
    · exact ihk f hf h
    · exact ihv f hf h
  | tag t x ih => exact ih h

theorem checkKeys_eq_ok_of_assigned {x : Item} (h : x.Throughout Assigned) : x.checkKeys = .ok () ↔ x.KeysDistinct := by
  rw [checkKeys_eq_ok_iff]
  constructor
  · intro hk es n hes
    exact (hk _ n hes).2
  · intro hk y n hy
    cases y with
    | map es =>
      refine ⟨?_, hk es n hy⟩
      intro e he
      have hkey := StandsAt.trans (.key he .whole) hy
      exact reserved?_eq_none_iff.mpr (h.of_standsAt hkey)
    | _ => trivial

theorem toOctets_eq_ok_iff {x : Item} {b : Octets} :
    x.toOctets = .ok b ↔ x.checkKeys = .ok () ∧ x.reserved? = none ∧ x.octets = b := by
  rw [toOctets, then_eq_ok_iff, write_eq_ok_iff]

end Provenance.Cbor.Item
