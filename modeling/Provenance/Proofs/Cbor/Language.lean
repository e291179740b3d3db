import Provenance.Proofs.Cbor.Reading
import Provenance.Proofs.Cbor.Writing

/-!
The language that the decoder accepts.
-/
namespace Provenance.Cbor

open Item (StandsAt Assigned)

theorem Item.fits_iff_le {x : Item} {limit : Nat} : x.Fits (limit + 1) ↔ ∀ y n, StandsAt y n x → n ≤ limit := by
  simp only [Item.Fits, Nat.lt_succ_iff]

theorem assigned_of_spells {b : Octets} {x : Item} (h : Spells b x) : x.Throughout Assigned := by
  induction h with
  | array ps hf hp ih =>
    rw [Item.throughout_array_iff, List.forall_mem_map]
    exact ⟨trivial, ih⟩
  | map ps hf hk hv ihk ihv =>
    rw [Item.throughout_map_iff, List.forall_mem_map]
    exact ⟨trivial, fun p hp => ⟨ihk p hp, ihv p hp⟩⟩
  | tag hh hx ih => exact Item.throughout_tag_iff.mpr ⟨trivial, ih⟩
  | simple hn h => exact (Item.throughout_leaf_iff (by trivial)).mpr hn
  | _ => exact (Item.throughout_leaf_iff (by trivial)).mpr trivial

theorem decode_eq_ok_iff_yields {b : Octets} {x : Item} :
    decode b = .ok x ↔ Yields (Item.read (maxNesting + 1) b) x [] ∧ x.checkKeys = .ok () := by
  rw [decode, mapError_eq_ok_iff, Item.ofOctets, bind_eq_ok_iff]
  simp only [refuse_eq_ok_iff, then_eq_ok_iff, not_not, ne_eq]
  constructor
  · rintro ⟨t, ht, hr, hkeys, hx⟩
    cases hx
    refine ⟨?_, hkeys⟩
    rw [ht]
    exact yields_ok_iff.mpr ⟨rfl, hr⟩
  · rintro ⟨⟨hr, h⟩, hkeys⟩
    exact ⟨⟨x, [], hr⟩, h, rfl, hkeys, rfl⟩

theorem decode_eq_ok_iff_spells {b : Octets} {x : Item} :
    decode b = .ok x ↔ Spells b x ∧ x.Fits (maxNesting + 1) ∧ x.checkKeys = .ok () := by
  rw [decode_eq_ok_iff_yields, item_read_iff]
  simp only [List.append_nil, exists_eq_left', and_assoc]

theorem fault_of_checkKeys {x : Item} {e : Flaw} (h : x.checkKeys = .error e) (m n : Nat) : e.fault m = e.fault n := by
  obtain ⟨k, rfl⟩ | ⟨k, rfl⟩ := Item.error_of_checkKeys h
  · rfl
  · rfl

theorem decode_of_spells {b : Octets} {x : Item} (h : Spells b x) (hf : x.Fits (maxNesting + 1)) :
    decode b = (x.checkKeys.mapError (Flaw.fault 0)).map fun _ => x := by
  have hread : Yields (Item.read (maxNesting + 1) b) x [] := item_read_iff.mpr ⟨b, (List.append_nil b).symm, h, hf⟩
  obtain ⟨hr, e⟩ := hread
  have hkeys : Item.ofOctets b = (x.checkKeys >>= fun _ => pure x) := by
    rw [Item.ofOctets, e]
    rfl
  rw [decode, hkeys]
  cases hx : x.checkKeys with
  | error e => exact congrArg Except.error (fault_of_checkKeys hx b.length 0)
  | ok _ => rfl

theorem decode_of_deep {b : Octets} {x : Item} (h : Spells b x) (hf : ¬ x.Fits (maxNesting + 1)) :
    decode b = .error (.malformed s!"CBOR nesting deeper than {maxNesting}") := by
  have hread := (answers_of_spells h (maxNesting + 1) []).2 hf
  rw [List.append_nil] at hread
  rw [decode, Item.ofOctets, hread]
  rfl

/-- The decoder accepts exactly what spells an item of at most `maxNesting` levels with distinct keys, and an item
that is spelled in two ways is decoded alike. -/
theorem decode_accepts_language (b : Octets) (v : Item) :
    (decode b = .ok v ↔ Spells b v ∧ (∀ y n, StandsAt y n v → n ≤ maxNesting) ∧ v.KeysDistinct) ∧
      ∀ c, Spells b v → Spells c v → decode b = decode c := by
  constructor
  · rw [decode_eq_ok_iff_yields, item_read_iff, Item.fits_iff_le]
    constructor
    · rintro ⟨⟨c, rfl, hc, hf⟩, hkeys⟩
      rw [List.append_nil]
      exact ⟨hc, hf, (Item.checkKeys_eq_ok_of_assigned (assigned_of_spells hc)).mp hkeys⟩
    · rintro ⟨hb, hf, hkeys⟩
      exact ⟨⟨b, (List.append_nil b).symm, hb, hf⟩,
        (Item.checkKeys_eq_ok_of_assigned (assigned_of_spells hb)).mpr hkeys⟩
  · intro c hb hc
    by_cases hf : v.Fits (maxNesting + 1)
    · rw [decode_of_spells hb hf, decode_of_spells hc hf]
    · rw [decode_of_deep hb hf, decode_of_deep hc hf]

end Provenance.Cbor
