import Provenance.Proofs.Trust.Precedence

/-!
What a verdict depends on, and that a chain once completed is complete.
-/
namespace Provenance.TrustPolicy

open Calendar (Instant)

variable {p q : TrustPolicy} {cs ds chain : List Certificate}

theorem verify_congr (h : p.complete cs = q.complete ds) (P : Provider) (vs : List Validator) (t : Instant) :
    p.verify P cs vs t = q.verify P ds vs t := by
  simp only [verify, h]

/-- Validators and instants decide about a chain, not which chain it is. -/
theorem chain_congr (h : p.complete cs = q.complete ds) (P Q : Provider) (vs ws : List Validator) (t u : Instant) :
    (p.verify P cs vs t).chain = (q.verify Q ds ws u).chain := by
  cases hc : q.complete ds with
  | error f => simp [verify, h, hc]
  | ok chain => rw [(verify_of_complete (h.trans hc) P vs t).1, (verify_of_complete hc Q ws u).1]

/-- The top of a completed chain is recognised as an anchor, so nothing is added to it, whatever the bound. -/
theorem complete_of_complete (hs : p.store.Keyed) (h : p.complete cs = .ok chain) (depth : Nat) :
    complete { p with maxDepth := depth } chain = .ok chain := by
  obtain ⟨top, htop, ha⟩ := (completed_of_complete hs h).anchored
  exact complete_anchor { p with maxDepth := depth } htop ha

theorem complete_of_checked {P : Provider} {vs : List Validator} {t : Instant}
    (h : (p.verify P cs vs t).isTrusted = true ∨ ∃ e, (p.verify P cs vs t).fault? = some e ∧ ¬ e.OfCompletion) :
    p.complete cs = .ok (p.verify P cs vs t).chain := by
  cases hc : p.complete cs with
  | ok chain => rw [(verify_of_complete hc P vs t).1]
  | error f =>
    obtain ⟨chain, f⟩ := f
    have hf := ofCompletion_of_complete hc
    have hv : p.verify P cs vs t = .untrusted chain f := (verify_eq_iff_complete hf P vs t).mpr hc
    rw [hv] at h
    obtain htrusted | ⟨e, he, hcheck⟩ := h
    · cases htrusted
    · cases he
      exact absurd hf hcheck

/-- A chain that was trusted or refused by a check is judged alike when it is supplied as it was reported, with any
bound; and which chain is reported is decided before any check is made. -/
theorem verify_again (P : Provider) (ops : List AnchorStore.Operation) (depth : Nat) (cs : List Certificate)
    (vs : List Validator) (t : Instant) :
    let p : TrustPolicy := ⟨.after ops, depth⟩
    let v := p.verify P cs vs t
    ((v.isTrusted = true ∨ ∃ e, v.fault? = some e ∧ ¬ e.OfCompletion) →
        ∀ bound, verify ⟨.after ops, bound⟩ P v.chain vs t = v) ∧
      ∀ ws u, (p.verify P cs ws u).chain = v.chain := by
  intro p v
  constructor
  · intro h bound
    have hc : p.complete cs = .ok v.chain := complete_of_checked h
    have hagain := complete_of_complete (AnchorStore.keyed_after ops) hc bound
    exact verify_congr (hagain.trans hc.symm) P vs t
  · intro ws u
    exact chain_congr rfl P P ws vs u t

end Provenance.TrustPolicy
