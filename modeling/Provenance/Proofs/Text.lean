import Provenance.Text.Utf8

/-!
Text and its octets determine each other.
-/
namespace Provenance.Text

theorem ofOctets?_eq_some_iff {b : Octets} {s : String} : ofOctets? b = some s ↔ octets s = b := by
  unfold ofOctets? octets String.fromUTF8?
  constructor
  · intro h
    split at h
    · cases h
      simp [String.fromUTF8]
    · cases h
  · rintro rfl
    have hb : (⟨s.toUTF8.data.toList.toArray⟩ : ByteArray) = s.toByteArray := by simp
    rw [dif_pos (hb ▸ s.isValidUTF8)]
    simp [String.fromUTF8]

theorem read_eq_ok_iff {b : Octets} {s : String} : read b = .ok s ↔ octets s = b := by
  rw [← ofOctets?_eq_some_iff, read]
  cases ofOctets? b <;> simp

theorem octets_append (s t : String) : octets (s ++ t) = octets s ++ octets t := by
  simp [octets]

theorem octets_join (ss : List String) : octets (String.join ss) = ss.flatMap octets := by
  induction ss with
  | nil => rfl
  | cons s ss ih => rw [String.join_cons, octets_append, ih, List.flatMap_cons]

end Provenance.Text
