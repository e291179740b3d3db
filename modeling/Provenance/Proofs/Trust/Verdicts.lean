import Provenance.Trust.Verdict
import Provenance.Proofs.Certificate
import Provenance.Proofs.Trust.Checks
import Provenance.Proofs.Trust.Stores

/-!
Trust in a chain: it is given to sound chains that end at an anchor, and to no others.
-/
namespace Provenance

open Calendar (Instant)

namespace AnchorStore

variable {s : AnchorStore}

theorem lookup_of_issuer? {c d : Certificate} (h : s.issuer? c = some d) : ∃ k, s.lookup k = some d := by
  obtain ⟨k, -, hk⟩ := Option.bind_eq_some_iff.mp h
  exact ⟨k, hk⟩

theorem lookup_of_above? {c d : Certificate} (h : s.above? c = some d) : ∃ k, s.lookup k = some d := by
  unfold above? at h
  split at h
  · cases h
  · exact lookup_of_issuer? h

theorem lookup_of_mem_ascend {n : Nat} {c d : Certificate} (h : d ∈ (s.ascend n c).1) :
    ∃ k, s.lookup k = some d := by
  induction n generalizing c with
  | zero =>
    unfold ascend at h
    cases hc : s.above? c <;> simp [hc] at h
  | succ n ih =>
    unfold ascend at h
    cases hc : s.above? c with
    | none => simp [hc] at h
    | some e =>
      simp only [hc, List.mem_cons] at h
      rcases h with rfl | h
      · exact lookup_of_above? hc
      · exact ih h

end AnchorStore

namespace TrustPolicy

variable {p : TrustPolicy}

structure Completed (p : TrustPolicy) (cs chain : List Certificate) : Prop where
  nonempty : cs ≠ []
  supplied : cs <+: chain
  anchored : ∃ root, chain.getLast? = some root ∧ p.store.isAnchor root = true

theorem complete_anchor (p : TrustPolicy) {cs : List Certificate} {last : Certificate}
    (hl : cs.getLast? = some last) (ha : p.store.isAnchor last = true) : p.complete cs = .ok cs := by
  simp [complete, hl, ha]

theorem complete_ascent (p : TrustPolicy) {cs : List Certificate} {last root : Certificate}
    (hl : cs.getLast? = some last) (ha : p.store.isAnchor last = false) (hi : p.store.issuer? last = some root) :
    p.complete cs = if (p.store.ascend (p.maxDepth - 1) root).2
      then .ok (cs ++ root :: (p.store.ascend (p.maxDepth - 1) root).1)
      else .error (cs ++ root :: (p.store.ascend (p.maxDepth - 1) root).1, .pathTooLong p.maxDepth) := by
  simp [complete, hl, ha, hi]

/-- What a chain is completed to ends at a certificate of the store, or where it ended before, at an anchor. -/
theorem exists_root_of_complete {cs chain : List Certificate} (h : p.complete cs = .ok chain) :
    cs ≠ [] ∧ cs <+: chain ∧ ∃ root, chain.getLast? = some root ∧
      (root ∈ p.store.certificates ∨ root ∈ cs ∧ p.store.isAnchor root = true) := by
  cases hl : cs.getLast? with
  | none => simp [complete, hl] at h
  | some last =>
    have hne : cs ≠ [] := by
      rintro rfl
      cases hl
    cases ha : p.store.isAnchor last with
    | true =>
      rw [complete_anchor p hl ha] at h
      cases h
      exact ⟨hne, List.prefix_refl cs, last, hl, .inr ⟨List.mem_of_getLast? hl, ha⟩⟩
    | false =>
      cases hi : p.store.issuer? last with
      | none => simp [complete, hl, ha, hi] at h
      | some root =>
        rw [complete_ascent p hl ha hi] at h
        split at h
        · cases h
          refine ⟨hne, List.prefix_append _ _, ?_⟩
          obtain ⟨top, htop⟩ : ∃ top, (root :: (p.store.ascend (p.maxDepth - 1) root).1).getLast? = some top :=
            ⟨_, List.getLast?_eq_some_getLast (List.cons_ne_nil _ _)⟩
          refine ⟨top, by rw [List.getLast?_append, htop, Option.some_or], .inl ?_⟩
          rw [AnchorStore.mem_certificates_iff]
          rcases List.mem_cons.mp (List.mem_of_getLast? htop) with rfl | hm
          · exact AnchorStore.lookup_of_issuer? hi
          · exact AnchorStore.lookup_of_mem_ascend hm
        · cases h

theorem completed_of_complete (hs : p.store.Keyed) {cs chain : List Certificate} (h : p.complete cs = .ok chain) :
    p.Completed cs chain := by
  obtain ⟨hne, hpre, root, hroot, hstored | ⟨-, ha⟩⟩ := exists_root_of_complete h
  · obtain ⟨k, hk⟩ := AnchorStore.mem_certificates_iff.mp hstored
    exact ⟨hne, hpre, root, hroot, hs.isAnchor hk⟩
  · exact ⟨hne, hpre, root, hroot, ha⟩

theorem verify_of_complete {cs chain : List Certificate} (h : p.complete cs = .ok chain) (P : Provider)
    (vs : List Validator) (t : Instant) :
    (p.verify P cs vs t).chain = chain ∧
      ((p.verify P cs vs t).fault? = none ↔ Certificate.Sound P vs t chain) := by
  rw [← Check.runAll_chain_iff]
  unfold verify
  rw [h]
  cases hr : Check.runAll P (Check.chain vs t chain) <;> simp [hr]

theorem verify_cases (p : TrustPolicy) (P : Provider) (cs : List Certificate) (vs : List Validator) (t : Instant) :
    (∃ chain, p.verify P cs vs t = .trusted chain) ∨ ∃ chain e, p.verify P cs vs t = .untrusted chain e := by
  unfold verify
  split
  · exact .inr ⟨_, _, rfl⟩
  · split
    · exact .inl ⟨_, rfl⟩
    · exact .inr ⟨_, _, rfl⟩

theorem isTrusted_iff_fault? (P : Provider) (cs : List Certificate) (vs : List Validator) (t : Instant) :
    (p.verify P cs vs t).isTrusted = true ↔ (p.verify P cs vs t).fault? = none := by
  obtain ⟨chain, h⟩ | ⟨chain, e, h⟩ := p.verify_cases P cs vs t <;> simp [h]

theorem fault?_eq_none_iff (P : Provider) (cs : List Certificate) (vs : List Validator) (t : Instant) :
    (p.verify P cs vs t).fault? = none ↔
      ∃ chain, p.complete cs = .ok chain ∧ Certificate.Sound P vs t chain := by
  cases hc : p.complete cs with
  | error e => simp [verify, hc]
  | ok chain => simp [(verify_of_complete hc P vs t).2]

/-- Certificates from a leaf up to a root, each signed with the key of the next. -/
structure SignaturePath (P : Provider) (leaf root : Certificate) (path : List Certificate) : Prop where
  first : path.head? = some leaf
  last : path.getLast? = some root
  signed : path.IsChain (Certificate.SignedBy P)

/-- The root of a trusted chain is in the store: a certificate with its octets is, which is the root itself if it was
read from octets. -/
theorem exists_path_of_isTrusted {P : Provider} {cs : List Certificate} {vs : List Validator} {t : Instant}
    {leaf : Certificate} (hcs : ∀ c ∈ cs, ∃ der, Certificate.ofDer der = .ok c) (hleaf : cs.head? = some leaf)
    (h : (p.verify P cs vs t).isTrusted = true) :
    ∃ path root, cs <+: path ∧ SignaturePath P leaf root path ∧ ∃ anchor ∈ p.store.certificates,
      anchor.same root = true ∧ ((∃ der, Certificate.ofDer der = .ok anchor) → anchor = root) := by
  obtain ⟨path, hc, hsound⟩ := (fault?_eq_none_iff P cs vs t).mp ((isTrusted_iff_fault? P cs vs t).mp h)
  obtain ⟨-, hpre, root, hroot, hanchor⟩ := exists_root_of_complete hc
  have hfirst : path.head? = some leaf := by
    obtain ⟨above, rfl⟩ := hpre
    rw [List.head?_append, hleaf, Option.some_or]
  have hsigned : path.IsChain (Certificate.SignedBy P) :=
    List.isChain_iff_getElem.mpr fun i hi => (hsound.linked i hi).signed
  refine ⟨path, root, hpre, ⟨hfirst, hroot, hsigned⟩, ?_⟩
  obtain hstored | ⟨hmem, ha⟩ := hanchor
  · exact ⟨root, hstored, by simp [Certificate.same], fun _ => rfl⟩
  · obtain ⟨anchor, hstored, hsame⟩ := AnchorStore.exists_same_of_isAnchor ha
    refine ⟨anchor, hstored, hsame, ?_⟩
    intro hread
    exact Certificate.eq_of_same hread (hcs root hmem) hsame

/-- Whatever was done to the store before, a chain is trusted if and only if it can be completed to a sound one; then
the verdict shows that chain, which ends at an anchor of the store. -/
theorem isTrusted_iff_sound (P : Provider) (ops : List AnchorStore.Operation) (depth : Nat)
    (cs : List Certificate) (vs : List Validator) (t : Instant) :
    let p : TrustPolicy := ⟨.after ops, depth⟩
    let v := p.verify P cs vs t
    (v.isTrusted = true ↔ cs ≠ [] ∧ ∃ chain, p.complete cs = .ok chain ∧ Certificate.Sound P vs t chain) ∧
      (v.isTrusted = true → v.fault? = none ∧ p.complete cs = .ok v.chain ∧ cs <+: v.chain ∧
        ∃ root, v.chain.getLast? = some root ∧ p.store.isAnchor root = true ∧
          ∃ anchor ∈ p.store.certificates, anchor.same root = true) := by
  intro p v
  have htrust : v.isTrusted = true ↔ ∃ chain, p.complete cs = .ok chain ∧ Certificate.Sound P vs t chain :=
    (isTrusted_iff_fault? P cs vs t).trans (fault?_eq_none_iff P cs vs t)
  have hkeyed : p.store.Keyed := AnchorStore.keyed_after ops
  constructor
  · rw [htrust]
    constructor
    · rintro ⟨chain, hc, hs⟩
      exact ⟨(completed_of_complete hkeyed hc).nonempty, chain, hc, hs⟩
    · exact fun h => h.2
  · intro h
    obtain ⟨chain, hc, -⟩ := htrust.mp h
    obtain ⟨-, hpre, root, hroot, hanchor⟩ := completed_of_complete hkeyed hc
    have hchain : v.chain = chain := (verify_of_complete hc P vs t).1
    rw [hchain]
    refine ⟨(isTrusted_iff_fault? P cs vs t).mp h, hc, hpre, root, hroot, hanchor, ?_⟩
    exact AnchorStore.exists_same_of_isAnchor hanchor

end TrustPolicy

end Provenance
