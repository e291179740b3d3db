import Provenance.Proofs.Trust.Histories
import Provenance.Proofs.Trust.Precedence

/-!
What a chain is completed with: never more anchors than the bound, but for the first one, which no bound keeps away.
-/
namespace Provenance

open Calendar (Instant)

namespace TrustPolicy

variable {p : TrustPolicy} {cs : List Certificate} {last root : Certificate}

/-- The anchors that a verdict shows above the supplied certificates: all that there are, or those the bound allows. -/
def appended (p : TrustPolicy) (cs : List Certificate) : List Certificate :=
  match p.complete cs with
  | .ok chain | .error (chain, _) => chain.drop cs.length

theorem drop_chain (p : TrustPolicy) (P : Provider) (cs : List Certificate) (vs : List Validator) (t : Instant) :
    (p.verify P cs vs t).chain.drop cs.length = p.appended cs := by
  cases hc : p.complete cs with
  | ok chain => simp only [appended, hc, (verify_of_complete hc P vs t).1]
  | error f => simp only [appended, verify, hc, Verdict.chain_untrusted]

theorem appended_of_anchor (hl : cs.getLast? = some last) (ha : p.store.isAnchor last = true) : p.appended cs = [] := by
  simp only [appended, complete_anchor p hl ha, List.drop_length]

theorem appended_of_no_issuer (hl : cs.getLast? = some last) (ha : p.store.isAnchor last = false)
    (hi : p.store.issuer? last = none) : p.appended cs = [] := by
  simp [appended, complete, hl, ha, hi]

theorem appended_of_issuer (hl : cs.getLast? = some last) (ha : p.store.isAnchor last = false)
    (hi : p.store.issuer? last = some root) :
    p.appended cs = root :: (p.store.ascend (p.maxDepth - 1) root).1 := by
  rw [appended, complete_ascent p hl ha hi]
  cases (p.store.ascend (p.maxDepth - 1) root).2 <;> simp

/-- Either nothing is appended, or it begins with the issuer of the last certificate. -/
theorem appended_cases (p : TrustPolicy) (cs : List Certificate) :
    p.appended cs = [] ∨ ∃ last root, cs.getLast? = some last ∧ p.store.isAnchor last = false ∧
      p.store.issuer? last = some root ∧ p.appended cs = root :: (p.store.ascend (p.maxDepth - 1) root).1 := by
  cases hl : cs.getLast? with
  | none => exact .inl (by simp [appended, complete, hl])
  | some last =>
    cases ha : p.store.isAnchor last with
    | true => exact .inl (appended_of_anchor hl ha)
    | false =>
      cases hi : p.store.issuer? last with
      | none => exact .inl (appended_of_no_issuer hl ha hi)
      | some root => exact .inr ⟨last, root, rfl, ha, hi, appended_of_issuer hl ha hi⟩

theorem length_ascend_le (s : AnchorStore) (n : Nat) (c : Certificate) : (s.ascend n c).1.length ≤ n := by
  obtain ⟨-, hle, -⟩ | ⟨-, heq, -⟩ := AnchorStore.ascend_cases (s := s) n c
  · exact hle
  · exact heq.le

theorem length_appended_le (p : TrustPolicy) (cs : List Certificate) : (p.appended cs).length ≤ max p.maxDepth 1 := by
  obtain h | ⟨last, root, -, -, -, h⟩ := p.appended_cases cs
  · simp [h]
  · have hle := length_ascend_le p.store (p.maxDepth - 1) root
    rw [h, List.length_cons]
    omega

theorem maxDepth_lt_length_appended_iff :
    p.maxDepth < (p.appended cs).length ↔ p.maxDepth = 0 ∧ ∃ last root, cs.getLast? = some last ∧
      p.store.isAnchor last = false ∧ p.store.issuer? last = some root ∧ p.appended cs = [root] := by
  have hle := p.length_appended_le cs
  constructor
  · intro hlt
    have hzero : p.maxDepth = 0 := by omega
    refine ⟨hzero, ?_⟩
    obtain h | ⟨last, root, hl, ha, hi, h⟩ := p.appended_cases cs
    · simp [h] at hlt
    · have hnone : (p.store.ascend (p.maxDepth - 1) root).1 = [] := by
        have htop := length_ascend_le p.store (p.maxDepth - 1) root
        exact List.eq_nil_of_length_eq_zero (by omega)
      exact ⟨last, root, hl, ha, hi, by rw [h, hnone]⟩
  · rintro ⟨hzero, last, root, -, -, -, h⟩
    rw [hzero, h]
    exact Nat.one_pos

theorem chain_eq_append_appended (P : Provider) (vs : List Validator) (t : Instant)
    (h : (p.verify P cs vs t).chain ≠ []) : (p.verify P cs vs t).chain = cs ++ p.appended cs := by
  obtain ⟨above, habove⟩ := prefix_chain P vs t h
  rw [← drop_chain p P cs vs t, ← habove, List.drop_left]

/-- No verdict, whatever it says, shows more certificates above the supplied ones than the bound, provided that the
bound is not zero. With zero it shows the issuer of the last one wherever there is one to be found, and none above. -/
theorem appended_within_bound (p : TrustPolicy) (P : Provider) (cs : List Certificate) (vs : List Validator)
    (t : Instant) :
    let s := p.store
    let n := p.maxDepth
    let v := p.verify P cs vs t
    let above := v.chain.drop cs.length
    (v.chain = [] ∨ v.chain = cs ++ above) ∧ above.length ≤ max n 1 ∧
      (n < above.length ↔ n = 0 ∧ ∃ last root, cs.getLast? = some last ∧ s.isAnchor last = false ∧
        s.issuer? last = some root ∧ above = [root]) := by
  intro s n v above
  have habove : above = p.appended cs := drop_chain p P cs vs t
  rw [habove]
  refine ⟨?_, p.length_appended_le cs, maxDepth_lt_length_appended_iff⟩
  exact or_iff_not_imp_left.mpr (chain_eq_append_appended P vs t)

end TrustPolicy

/-- A certificate without an identifier, its issuer, and an anchor that has nothing to do with them. -/
def issuedBundle : Bundle := .pem (Text.octets ("-----BEGIN CERTIFICATE-----\n" ++
  "MH0wcaADAgECAgECMAUGAytlcDAAMB4XDTIwMDEwMTAwMDAwMFoXDTQwMDEwMTAw\n" ++
  "MDAwMFowADAqMAUGAytlcAMhAAAAAAAAAAAAAAAAAAAAAAAAAAAAAAAAAAAAAAAA\n" ++
  "AAAAoxAwDjAMBgNVHSMEBTADgAEBMAUGAytlcAMBAA==\n" ++
  "-----END CERTIFICATE-----\n-----BEGIN CERTIFICATE-----\n" ++
  "MHswb6ADAgECAgEBMAUGAytlcDAAMB4XDTIwMDEwMTAwMDAwMFoXDTQwMDEwMTAw\n" ++
  "MDAwMFowADAqMAUGAytlcAMhAAAAAAAAAAAAAAAAAAAAAAAAAAAAAAAAAAAAAAAA\n" ++
  "AAAAow4wDDAKBgNVHQ4EAwQBATAFBgMrZXADAQA=\n" ++
  "-----END CERTIFICATE-----\n-----BEGIN CERTIFICATE-----\n" ++
  "MHswb6ADAgECAgEDMAUGAytlcDAAMB4XDTIwMDEwMTAwMDAwMFoXDTQwMDEwMTAw\n" ++
  "MDAwMFowADAqMAUGAytlcAMhAAAAAAAAAAAAAAAAAAAAAAAAAAAAAAAAAAAAAAAA\n" ++
  "AAAAow4wDDAKBgNVHQ4EAwQBAjAFBgMrZXADAQA=\n" ++
  "-----END CERTIFICATE-----\n"))

set_option maxRecDepth 4000 in
theorem issuedBundle_keys :
    issuedBundle.certificates.toOption.map (·.map fun c => (c.ski?, c.aki?)) =
      some [(none, some [1]), (some [1], none), (some [2], none)] := by
  decide +kernel

theorem exists_issuedBundle :
    ∃ leaf root other, issuedBundle.certificates = .ok [leaf, root, other] ∧ leaf.ski? = none ∧ leaf.aki? = some [1] ∧
      root.ski? = some [1] ∧ root.aki? = none ∧ other.ski? = some [2] := by
  have hkeys := issuedBundle_keys
  obtain ⟨cs, hcs, hmap⟩ := Option.map_eq_some_iff.mp hkeys
  obtain ⟨leaf, rest, rfl, hleaf, hrest⟩ := List.map_eq_cons_iff.mp hmap
  obtain ⟨root, rest, rfl, hroot, hrest⟩ := List.map_eq_cons_iff.mp hrest
  obtain ⟨other, rest, rfl, hother, hrest⟩ := List.map_eq_cons_iff.mp hrest
  obtain rfl := List.map_eq_nil_iff.mp hrest
  simp only [Prod.mk.injEq] at hleaf hroot hother
  exact ⟨leaf, root, other, toOption_eq_some_iff.mp hcs, hleaf.1, hleaf.2, hroot.1, hroot.2, hother.1⟩

/-- With its issuer as the only anchor, a certificate is completed with that, whatever the bound. -/
theorem appended_of_only_anchor {leaf root : Certificate} {k : Octets} (hleaf : leaf.ski? = none)
    (hissued : leaf.aki? = some k) (hski : root.ski? = some k) (htop : root.aki? = none) (bound : Nat) :
    TrustPolicy.appended ⟨.after [.add root], bound⟩ [leaf] = [root] := by
  let p : TrustPolicy := ⟨.after [.add root], bound⟩
  have hroot : p.store.lookup k = some root :=
    (AnchorStore.Write.lookup_apply .empty (.put root) k).trans (if_pos hski)
  have ha : p.store.isAnchor leaf = false := by simp [AnchorStore.isAnchor, hleaf]
  have hi : p.store.issuer? leaf = some root := by simp [AnchorStore.issuer?, hissued, hroot]
  have habove : p.store.above? root = none := by simp [AnchorStore.above?, AnchorStore.issuer?, htop]
  exact (TrustPolicy.appended_of_issuer rfl ha hi).trans (by rw [AnchorStore.ascend_top habove])

/-- With no anchors allowed, one is appended all the same. -/
theorem zero_bound_exceeded :
    ∃ leaf root other, issuedBundle.certificates = .ok [leaf, root, other] ∧
      let v := TrustPolicy.verify ⟨.after [.add root], 0⟩ .standard [leaf] [] .epoch
      ¬ (v.chain.drop [leaf].length).length ≤ 0 := by
  obtain ⟨leaf, root, other, hcs, hleaf, hissued, hski, htop, -⟩ := exists_issuedBundle
  refine ⟨leaf, root, other, hcs, ?_⟩
  intro v
  have habove := TrustPolicy.drop_chain ⟨.after [.add root], 0⟩ .standard [leaf] [] .epoch
  rw [appended_of_only_anchor hleaf hissued hski htop] at habove
  rw [habove]
  exact Nat.not_succ_le_zero 0

end Provenance
