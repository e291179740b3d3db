import Provenance.Proofs.Cbor.RoundTrip

/-!
Where a head or a string with its length ends can be told from it, so what is written after one is not lost in it.
-/
namespace Provenance.Cbor

theorem announcements_unique {info v w : Nat} (hv : (info, v) ∈ announcements) (hw : (info, w) ∈ announcements) :
    v = w := by
  simp only [announcements, List.mem_cons, Prod.mk.injEq, List.not_mem_nil, or_false] at hv hw
  omega

theorem Heading.append_inj {major m n v w : Nat} {a b s t : Octets} (hmajor : major < 8)
    (hm : Heading major m v a) (hn : Heading major n w b) (h : a ++ s = b ++ t) : m = n ∧ s = t := by
  have same {i j : Nat} (hi : i < 32) (hj : j < 32) (hij : initial major i = initial major j) : i = j := by
    rw [← initial_mod hmajor hi, hij, initial_mod hmajor hj]
  cases hm with
  | immediate hm =>
    cases hn with
    | immediate hn =>
      obtain ⟨hi, hs⟩ := List.cons_eq_cons.mp h
      exact ⟨same (by omega) (by omega) hi, hs⟩
    | following hw hn =>
      have hinfo := announcements_bounds hw
      have hi := same (by omega) (by omega) (List.cons_eq_cons.mp h).1
      omega
  | following hv hm =>
    have hinfo := announcements_bounds hv
    cases hn with
    | immediate hn =>
      have hi := same (by omega) (by omega) (List.cons_eq_cons.mp h).1
      omega
    | following hw hn =>
      have hinfo' := announcements_bounds hw
      obtain ⟨hi, hrest⟩ := List.cons_eq_cons.mp h
      obtain rfl := same (by omega) (by omega) hi
      obtain rfl := announcements_unique hv hw
      obtain ⟨hmn, hs⟩ := List.append_inj hrest (by simp)
      refine ⟨?_, hs⟩
      rw [← Octets.toNat_ofNat hm, hmn, Octets.toNat_ofNat hn]

theorem Head.write_append_inj {major m n : Nat} {s t : Octets} (hmajor : major < 8) (hm : m < 2 ^ 64)
    (hn : n < 2 ^ 64) (h : write major m ++ s = write major n ++ t) : m = n ∧ s = t := by
  obtain ⟨_, hm⟩ := heading_write hm
  obtain ⟨_, hn⟩ := heading_write hn
  exact hm.append_inj hmajor hn h

theorem Head.shortest_mono {m n : Nat} (h : m ≤ n) : shortest m ≤ shortest n := by
  unfold shortest
  grind

/-- A string with its length before it. -/
def measured (major : Nat) (a : Octets) : Octets := Head.write major a.length ++ a

theorem measured_append_inj {major : Nat} {a b s t : Octets} (hmajor : major < 8) (ha : a.length < 2 ^ 64)
    (hb : b.length < 2 ^ 64) (h : measured major a ++ s = measured major b ++ t) : a = b ∧ s = t := by
  rw [measured, measured, List.append_assoc, List.append_assoc] at h
  obtain ⟨hlen, hrest⟩ := Head.write_append_inj hmajor ha hb h
  exact List.append_inj hrest hlen

/-- At the end of the octets a string needs no bound: of two, the longer has no shorter head. -/
theorem measured_inj {major : Nat} {a b : Octets} (h : measured major a = measured major b) : a = b := by
  have hlen := congrArg List.length h
  simp only [measured, List.length_append, Head.length_write] at hlen
  have hsame : a.length = b.length := by
    obtain hle | hle := Nat.le_total a.length b.length
    · have := Head.shortest_mono hle
      omega
    · have := Head.shortest_mono hle
      omega
  exact (List.append_inj' h hsame).2

end Provenance.Cbor
