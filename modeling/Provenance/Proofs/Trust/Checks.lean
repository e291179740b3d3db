import Mathlib.Data.List.Chain
import Provenance.Proofs.Outcome
import Provenance.Trust.Check

/-!
What the checks on a chain ask for, said of the certificates themselves: a chain passes its checks exactly if it is
`Sound`.
-/
namespace Provenance

open Calendar (Instant)

namespace Certificate

def SignedBy (P : Provider) (c issuer : Certificate) : Prop :=
  ∃ k, issuer.nativeKey P = .ok k ∧ c.isSignedBy P k = true

structure IssuedBy (P : Provider) (c issuer : Certificate) : Prop where
  authority : issuer.isAuthority = true
  certSign : issuer.allowsCertSign = true
  name : c.rawIssuer = issuer.rawSubject
  key : ∀ aki ski, c.aki? = some aki → issuer.ski? = some ski → aki = ski
  signed : c.SignedBy P issuer

structure AcceptedAt (vs : List Validator) (t : Instant) (c : Certificate) : Prop where
  valid : c.isValidAt t = .ok true
  unrejected : ∀ v ∈ vs, v.reason? c = none

structure Sound (P : Provider) (vs : List Validator) (t : Instant) (cs : List Certificate) : Prop where
  leaf : ∀ c, cs.head? = some c → c.allowsSignature = true
  accepted : ∀ c ∈ cs, c.AcceptedAt vs t
  linked : ∀ i (h : i + 1 < cs.length), cs[i].IssuedBy P cs[i + 1]
  terminal : ∀ c, cs.getLast? = some c → c.isSelfIssued = true → c.SignedBy P c

end Certificate

namespace Check

variable (P : Provider) (vs : List Validator) (t : Instant)

def Holds : Check → Prop
  | signatureUse c => c.allowsSignature = true
  | authority c => c.isAuthority = true
  | certSignUse c => c.allowsCertSign = true
  | issuerName c d => c.rawIssuer = d.rawSubject
  | issuerKey c d => ∀ aki ski, c.aki? = some aki → d.ski? = some ski → aki = ski
  | validity c t => c.isValidAt t = .ok true
  | signature c d => c.SignedBy P d
  | validator v c => v.reason? c = none

theorem require_eq_ok_iff (b : Bool) (e : TrustFault) : require b e = .ok () ↔ b = true := by
  cases b <;> simp [require]

theorem issuerKeyFits_iff (c d : Certificate) :
    issuerKeyFits c d = true ↔ ∀ aki ski, c.aki? = some aki → d.ski? = some ski → aki = ski := by
  unfold issuerKeyFits
  cases ha : c.aki? with
  | none => simp
  | some aki => cases hs : d.ski? <;> simp

theorem run_eq_ok_iff (k : Check) : k.run P = .ok () ↔ k.Holds P := by
  cases k with
  | signatureUse c => exact require_eq_ok_iff _ _
  | authority c => exact require_eq_ok_iff _ _
  | certSignUse c => exact require_eq_ok_iff _ _
  | issuerName c d => simp [run, require_eq_ok_iff, Holds]
  | issuerKey c d => exact (require_eq_ok_iff _ _).trans (issuerKeyFits_iff c d)
  | validity c t =>
    simp only [run, Holds, use, bind_eq_ok_iff, mapError_eq_ok_iff, require_eq_ok_iff]
    constructor
    · rintro ⟨b, hb, rfl⟩
      exact hb
    · intro h
      exact ⟨true, h, rfl⟩
  | signature c d =>
    simp only [run, Holds, use, Certificate.SignedBy, bind_eq_ok_iff, mapError_eq_ok_iff, require_eq_ok_iff]
  | validator v c =>
    simp only [run, Holds]
    cases v.reason? c <;> simp

theorem runAll_eq_ok_iff (ks : List Check) : runAll P ks = .ok () ↔ ∀ k ∈ ks, k.Holds P := by
  rw [runAll, forM_eq_ok_iff]
  simp only [run_eq_ok_iff]

theorem forall_validators_iff (c : Certificate) :
    (∀ k ∈ validators vs c, k.Holds P) ↔ ∀ v ∈ vs, v.reason? c = none := by
  simp [validators, Holds]

theorem forall_leaf_iff (c : Certificate) :
    (∀ k ∈ leaf vs t c, k.Holds P) ↔ c.allowsSignature = true ∧ c.AcceptedAt vs t := by
  rw [leaf, List.forall_mem_cons, List.forall_mem_cons, forall_validators_iff]
  constructor
  · rintro ⟨hu, hv, hr⟩
    exact ⟨hu, hv, hr⟩
  · rintro ⟨hu, hv, hr⟩
    exact ⟨hu, hv, hr⟩

theorem forall_link_iff (c d : Certificate) :
    (∀ k ∈ link vs t c d, k.Holds P) ↔ c.IssuedBy P d ∧ d.AcceptedAt vs t := by
  simp only [link, List.forall_mem_append, List.forall_mem_cons, List.not_mem_nil, false_implies,
    implies_true, and_true, forall_validators_iff]
  constructor
  · rintro ⟨⟨ha, hc, hn, hk, hv, hs⟩, hr⟩
    exact ⟨⟨ha, hc, hn, hk, hs⟩, hv, hr⟩
  · rintro ⟨⟨ha, hc, hn, hk, hs⟩, hv, hr⟩
    exact ⟨⟨ha, hc, hn, hk, hv, hs⟩, hr⟩

theorem forall_links_iff (cs : List Certificate) :
    (∀ k ∈ links vs t cs, k.Holds P) ↔
      cs.IsChain fun c d => c.IssuedBy P d ∧ d.AcceptedAt vs t := by
  induction cs with
  | nil => simp [links]
  | cons c cs ih =>
    cases cs with
    | nil => simp [links]
    | cons d cs => rw [links, List.forall_mem_append, ih, forall_link_iff, List.isChain_cons_cons]

theorem forall_terminal_iff (c : Certificate) :
    (∀ k ∈ terminal c, k.Holds P) ↔ (c.isSelfIssued = true → c.SignedBy P c) := by
  unfold terminal
  split <;> simp_all [Holds]

theorem runAll_chain_iff (cs : List Certificate) :
    runAll P (chain vs t cs) = .ok () ↔ Certificate.Sound P vs t cs := by
  rw [runAll_eq_ok_iff, chain, List.forall_mem_append, List.forall_mem_append, forall_links_iff,
    List.isChain_iff_getElem]
  constructor
  · rintro ⟨⟨hleaf, hlinks⟩, hlast⟩
    refine ⟨?_, ?_, fun i h => (hlinks i h).1, ?_⟩
    · intro c hc
      rw [hc] at hleaf
      exact ((forall_leaf_iff P vs t c).mp hleaf).1
    · intro c hc
      obtain ⟨i, hi, rfl⟩ := List.mem_iff_getElem.mp hc
      cases i with
      | zero =>
        rw [List.head?_eq_getElem?, List.getElem?_eq_getElem hi] at hleaf
        exact ((forall_leaf_iff P vs t _).mp hleaf).2
      | succ i => exact (hlinks i hi).2
    · intro c hc
      rw [hc] at hlast
      exact (forall_terminal_iff P c).mp hlast
  · intro h
    refine ⟨⟨?_, fun i hi => ⟨h.linked i hi, h.accepted _ (List.getElem_mem hi)⟩⟩, ?_⟩
    · cases hc : cs.head? with
      | none => simp
      | some c => exact (forall_leaf_iff P vs t c).mpr ⟨h.leaf c hc, h.accepted c (List.mem_of_head? hc)⟩
    · cases hc : cs.getLast? with
      | none => simp
      | some c => exact (forall_terminal_iff P c).mpr (h.terminal c hc)

end Check

end Provenance
