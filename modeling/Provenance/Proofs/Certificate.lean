import Provenance.Certificate.Basic

/-!
Certificates that were read: all of one is in its octets.
-/
namespace Provenance.Certificate

variable {b : Octets} {c d : Certificate}

theorem der_of_ofDer (h : ofDer b = .ok c) : c.der = b := by
  unfold ofDer at h
  split at h
  · cases h
  · split at h
    · cases h
    split at h
    · cases h
      rfl
    · cases h

theorem eq_of_same (hc : ∃ der, ofDer der = .ok c) (hd : ∃ der, ofDer der = .ok d) (h : c.same d = true) : c = d := by
  obtain ⟨b, hb⟩ := hc
  obtain ⟨b', hb'⟩ := hd
  have hder : c.der = d.der := of_decide_eq_true h
  rw [der_of_ofDer hb, der_of_ofDer hb'] at hder
  rw [hder, hb'] at hb
  exact (Except.ok.inj hb).symm

end Provenance.Certificate
