import Provenance.Proofs.Cbor.Records
import Provenance.Proofs.Cbor.RoundTrip

/-!
No octet string begins with the spellings of two items, or with the spelling of an item in two lengths. So keys of one
encoding are equal keys, and which items have octets is said without any octets.
-/
namespace Provenance.Cbor

open Item (StandsAt Assigned)

namespace Item

variable {x y : Item} {n : Nat}

theorem StandsAt.lt_sizeOf (h : StandsAt y n x) : n < sizeOf x := by
  induction h with
  | whole =>
    cases y <;> simp only [array.sizeOf_spec, map.sizeOf_spec, tag.sizeOf_spec, unsigned.sizeOf_spec,
      negative.sizeOf_spec, bytes.sizeOf_spec, text.sizeOf_spec, bool.sizeOf_spec, null.sizeOf_spec,
      undefined.sizeOf_spec, simple.sizeOf_spec, float.sizeOf_spec] <;> omega
  | @element _ z xs hz _ ih =>
    have hpart := List.sizeOf_lt_of_mem hz
    rw [array.sizeOf_spec]
    omega
  | @key _ e es he _ ih =>
    have hpart := List.sizeOf_lt_of_mem he
    have hentry : sizeOf e = 1 + sizeOf e.1 + sizeOf e.2 := Prod.mk.sizeOf_spec e.1 e.2
    rw [map.sizeOf_spec]
    omega
  | @value _ e es he _ ih =>
    have hpart := List.sizeOf_lt_of_mem he
    have hentry : sizeOf e = 1 + sizeOf e.1 + sizeOf e.2 := Prod.mk.sizeOf_spec e.1 e.2
    rw [map.sizeOf_spec]
    omega
  | content _ ih =>
    rw [tag.sizeOf_spec]
    omega

theorem fits_sizeOf (x : Item) : x.Fits (sizeOf x) := fun _ _ h => h.lt_sizeOf

end Item

/-- With room for both items, both spellings are read from the one string. -/
theorem Spells.append_inj {b c s t : Octets} {x y : Item} (hx : Spells b x) (hy : Spells c y) (h : b ++ s = c ++ t) :
    x = y ∧ s = t := by
  let room := max (sizeOf x) (sizeOf y)
  have hfirst := (answers_of_spells hx room s).1 (x.fits_sizeOf.mono (Nat.le_max_left _ _))
  have hsecond := (answers_of_spells hy room t).1 (y.fits_sizeOf.mono (Nat.le_max_right _ _))
  rw [h] at hfirst
  exact yields_unique hfirst hsecond

theorem Spells.octets_inj {x y : Item} (hx : Spells x.octets x) (hy : Spells y.octets y) (h : x.octets = y.octets) :
    x = y :=
  (hx.append_inj (s := []) (t := []) hy (by rw [h])).1

namespace Item

variable {x y : Item}

theorem octets_append_inj (hx : x.reserved? = none) (hcx : x.Counted) (hy : y.reserved? = none) (hcy : y.Counted)
    {s t : Octets} (h : x.octets ++ s = y.octets ++ t) : x = y ∧ s = t :=
  (spells_of_counted hx hcx).append_inj (spells_of_counted hy hcy) h

theorem octets_inj (hx : x.reserved? = none) (hcx : x.Counted) (hy : y.reserved? = none) (hcy : y.Counted)
    (h : x.octets = y.octets) : x = y :=
  (spells_of_counted hx hcx).octets_inj (spells_of_counted hy hcy) h

theorem keysDistinct_iff_distinctKeys (ha : x.Throughout Assigned) (hc : x.Counted) :
    x.KeysDistinct ↔ x.DistinctKeys := by
  refine ⟨KeysDistinct.distinctKeys, ?_⟩
  intro hd es n hes
  have hkey {k : Item} (hk : k ∈ es.map Prod.fst) : k.reserved? = none ∧ k.Counted := by
    obtain ⟨e, he, rfl⟩ := List.mem_map.mp hk
    have hstands : StandsAt e.1 (1 + n) x := StandsAt.trans (.key he .whole) hes
    exact ⟨reserved?_eq_none_iff.mpr (ha.of_standsAt hstands), hc.of_standsAt hstands⟩
  have hnodup : ((es.map Prod.fst).map octets).Nodup := by
    apply List.Nodup.map_on _ (hd _ n hes)
    intro k hk l hl hkl
    exact octets_inj (hkey hk).1 (hkey hk).2 (hkey hl).1 (hkey hl).2 hkl
  rwa [List.map_map] at hnodup

theorem throughout_assigned_iff :
    x.Throughout Assigned ↔ ∀ k n, StandsAt (.simple k) n x → k < 20 ∨ 32 ≤ k := by
  constructor
  · intro h k n hk
    exact h _ n hk
  · intro h y n hy
    cases y with
    | simple k => exact h k n hy
    | _ => trivial

theorem distinctKeys_iff : x.DistinctKeys ↔ ∀ es n, StandsAt (.map es) n x → (es.map Prod.fst).Nodup := by
  constructor
  · intro h es n hes
    exact h _ n hes
  · intro h y n hy
    cases y with
    | map es => exact h es n hy
    | _ => trivial

end Item

theorem exists_encode_iff {v : Item} (hc : v.Counted) :
    (∃ b, encode v = .ok b) ↔ v.Throughout Assigned ∧ v.DistinctKeys := by
  simp only [encode_eq_ok_iff, Item.reserved?_eq_none_iff]
  constructor
  · rintro ⟨b, ha, hd, -⟩
    exact ⟨ha, hd.distinctKeys⟩
  · rintro ⟨ha, hd⟩
    exact ⟨v.octets, ha, (Item.keysDistinct_iff_distinctKeys ha hc).mpr hd, rfl⟩

theorem fault_of_encode {v : Item} {e : Fault} (h : encode v = .error e) :
    (∃ d, e = .malformed d) ∨ ∃ d, e = .duplicated d := by
  have hflaw {f : Flaw} (hf : v.toOctets = .error f) : (∃ n, f = .unencodable n) ∨ ∃ k, f = .duplicateKey k := by
    obtain hk | ⟨_, -, hw⟩ := bind_eq_error_iff.mp hf
    · exact Item.error_of_checkKeys hk
    · unfold Item.write at hw
      split at hw
      · cases hw
        exact .inl ⟨_, rfl⟩
      · cases hw
  rw [encode] at h
  cases hv : v.toOctets with
  | ok b =>
    rw [hv] at h
    cases h
  | error f =>
    rw [hv] at h
    cases h
    obtain ⟨n, rfl⟩ | ⟨k, rfl⟩ := hflaw hv
    · exact .inl ⟨_, rfl⟩
    · exact .inr ⟨_, rfl⟩

/-- Octets are written for one item only and end in one place, so comparing keys by their octets is comparing keys: an
item is encoded exactly if it holds no reserved simple value and no map with two equal keys. Counts are those that a
machine with words of 64 bits can hold. -/
theorem encoding_unambiguous :
    (∀ (v w : Item) (b c s t : Octets), v.Counted → w.Counted → v.write = .ok b → w.write = .ok c →
      b ++ s = c ++ t → v = w ∧ s = t) ∧
      (∀ v : Item, v.Counted → ((∃ b, encode v = .ok b) ↔ (∀ k n, StandsAt (.simple k) n v → k < 20 ∨ 32 ≤ k) ∧
        ∀ es n, StandsAt (.map es) n v → (es.map Prod.fst).Nodup)) ∧
      ∀ v e, encode v = .error e → (∃ d, e = .malformed d) ∨ ∃ d, e = .duplicated d := by
  refine ⟨?_, ?_, ?_⟩
  · intro v w b c s t hcv hcw hv hw h
    obtain ⟨hresv, rfl⟩ := Item.write_eq_ok_iff.mp hv
    obtain ⟨hresw, rfl⟩ := Item.write_eq_ok_iff.mp hw
    exact Item.octets_append_inj hresv hcv hresw hcw h
  · intro v hc
    rw [exists_encode_iff hc, Item.throughout_assigned_iff, Item.distinctKeys_iff]
  · intro v e
    exact fault_of_encode

/-- Keys that compare as equal numbers, told apart by their octets. -/
def alikeKeys : Item :=
  .map [(.float 0, .null), (.float 0x8000000000000000, .null), (.unsigned 1, .null),
    (.array [.float 0x3ff0000000000000], .null)]

theorem counted_alikeKeys : alikeKeys.Counted := by
  have hleaf {x : Item} (hx : x.Leaf) (h : x.count = 0) : x.Counted := by
    rw [Item.Counted, Item.throughout_leaf_iff hx, h]
    decide
  simp only [alikeKeys, Item.Counted, Item.throughout_map_iff, Item.throughout_array_iff, List.forall_mem_cons]
  refine ⟨by decide, ⟨hleaf trivial rfl, hleaf trivial rfl⟩, ⟨hleaf trivial rfl, hleaf trivial rfl⟩,
    ⟨hleaf trivial rfl, hleaf trivial rfl⟩, ⟨⟨by decide, hleaf trivial rfl, nofun⟩, hleaf trivial rfl⟩, nofun⟩

theorem encoding_unambiguous_alikeKeys :
    alikeKeys.Counted ∧ (∃ b, encode alikeKeys = .ok b) ∧
      ∀ es n, StandsAt (.map es) n alikeKeys → (es.map Prod.fst).Nodup := by
  have hencode : ∃ b, encode alikeKeys = .ok b := ⟨alikeKeys.octets, rfl⟩
  exact ⟨counted_alikeKeys, hencode, ((encoding_unambiguous.2.1 alikeKeys counted_alikeKeys).mp hencode).2⟩

end Provenance.Cbor
