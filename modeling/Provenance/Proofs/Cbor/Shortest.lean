import Provenance.Cbor.Cursor
import Provenance.Proofs.Binary64
import Provenance.Proofs.Cbor.Heads

/-!
No spelling of a head is shorter than its shortest form.
-/
namespace Provenance.Cbor

theorem Heading.shortest_le {major n width : Nat} {b : Octets} (h : Heading major n width b) :
    Head.shortest n ≤ b.length := by
  rw [h.length]
  unfold Head.shortest
  cases h with
  | immediate hn => rw [if_pos hn]
  | @following info width hw hn =>
    simp only [announcements, List.mem_cons, Prod.mk.injEq, List.not_mem_nil, or_false] at hw
    obtain ⟨-, rfl⟩ | ⟨-, rfl⟩ | ⟨-, rfl⟩ | ⟨-, rfl⟩ := hw
    all_goals
      simp only [Nat.reducePow] at hn
      grind

theorem Head.length_writeFloat_le (bits : Nat) : (writeFloat bits).length ≤ 9 := by
  unfold writeFloat
  split <;> simp

theorem Head.length_writeFloat_half (n : Nat) : (writeFloat (Binary64.half.widen n)).length = 3 := by
  obtain ⟨k, hk⟩ := Binary64.Format.narrow?_widen Binary64.Format.narrower_half n
  simp [writeFloat, hk]

theorem Head.length_writeFloat_single (n : Nat) : (writeFloat (Binary64.single.widen n)).length ≤ 5 := by
  obtain ⟨k, hk⟩ := Binary64.Format.narrow?_widen Binary64.Format.narrower_single n
  unfold writeFloat
  rw [hk]
  cases Binary64.half.narrow? (Binary64.single.widen n) <;> simp

theorem toNat_ofNat_widen {f : Binary64.Format} (hf : f.Narrower) (n : Nat) :
    (UInt64.ofNat (f.widen n)).toNat = f.widen n := by
  rw [UInt64.toNat_ofNat']
  exact Nat.mod_eq_of_lt (Binary64.Format.widen_lt hf n)

theorem LengthSpells.size_le {major : Nat} {b : Octets} {size? : Option Nat} (h : LengthSpells major b size?) :
    (size?.map Head.shortest).getD 1 ≤ b.length := by
  cases size? with
  | none =>
    cases h
    exact le_refl 1
  | some n =>
    obtain ⟨width, h⟩ := h
    exact h.shortest_le

theorem HeadSpells.size_le {b : Octets} {hd : Head} (h : HeadSpells b hd) : hd.size ≤ b.length := by
  cases hd with
  | unsigned | negative | tag =>
    obtain ⟨width, h⟩ := h
    exact h.shortest_le
  | bytes | text | array | map => exact LengthSpells.size_le h
  | simple n =>
    obtain ⟨width, -, h⟩ := h
    exact h.shortest_le
  | float bits =>
    rw [Head.size]
    obtain ⟨n, h, rfl⟩ | ⟨n, h, rfl⟩ | h := h
    · rw [toNat_ofNat_widen Binary64.Format.narrower_half, Head.length_writeFloat_half, h.length]
    · rw [toNat_ofNat_widen Binary64.Format.narrower_single, h.length]
      exact Head.length_writeFloat_single n
    · rw [h.length]
      exact Head.length_writeFloat_le _
  | stop =>
    cases h
    exact le_refl 1

end Provenance.Cbor
