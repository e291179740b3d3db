import Provenance.IssuerList.Signed
import Provenance.Proofs.Cbor.Fields
import Provenance.Proofs.Envelope.Signers

/-!
Authenticity of issuer lists: a list is read only from a payload whose signature turned out right, and a payload whose
signature did not is without influence.
-/
namespace Provenance

open Cbor

namespace IssuerEntry

theorem formal_put (d : Draft) (key? : Option String) (x : Item) : Formal (d.put key? x) := by
  unfold Draft.put
  split
  · exact faultsIn_bind (Field.formal_bytes _ _) fun _ => faultsIn_ok _
  · exact faultsIn_map (Field.formal_bignum _ _)
  · exact faultsIn_map (Field.formal_bytes _ _)
  · exact faultsIn_bind (Field.formal_texts _ _) fun _ => faultsIn_ok _
  · exact faultsIn_bind (Field.formal_texts _ _) fun _ => faultsIn_ok _
  · exact faultsIn_ok _

theorem formal_ofItem (name : String) (x : Item) : Formal (ofItem name x) := by
  apply faultsIn_bind (Field.formal_record _ _ formal_put _)
  intro d
  apply faultsIn_bind (Field.formal_required _ _)
  intro certificate
  apply faultsIn_bind (Field.formal_required _ _)
  intro docTypes
  exact faultsIn_ok _

end IssuerEntry

namespace IssuerList

theorem formal_put (d : Draft) (key? : Option String) (x : Item) : Formal (d.put key? x) := by
  unfold Draft.put
  split
  · exact faultsIn_bind (Field.formal_text _ _) fun _ => faultsIn_ok _
  · exact faultsIn_bind (Field.formal_text _ _) fun _ => faultsIn_ok _
  · exact faultsIn_bind (Field.formal_date _ _) fun _ => faultsIn_ok _
  · exact faultsIn_bind (Field.formal_date _ _) fun _ => faultsIn_ok _
  · exact faultsIn_bind (Field.formal_uint _ _) fun _ => faultsIn_ok _
  · apply faultsIn_bind (Field.formal_array _ _)
    intro xs
    apply faultsIn_bind (Field.formal_each _ IssuerEntry.formal_ofItem 0 xs)
    intro more
    exact faultsIn_ok _
  · exact faultsIn_ok _

theorem formal_finish (d : Draft) : Formal d.finish := by
  apply faultsIn_bind (Field.formal_required _ _)
  intro version
  apply faultsIn_bind (Field.formal_required _ _)
  intro provider
  apply faultsIn_bind (Field.formal_required _ _)
  intro date
  apply faultsIn_bind (Field.formal_required _ _)
  intro entries
  exact faultsIn_ok _

theorem formal_ofItem (x : Item) : Formal (ofItem x) :=
  faultsIn_bind (Field.formal_record _ _ formal_put _) formal_finish

end IssuerList

namespace SignedIssuerList

variable {P : Provider}

/-- What has to be in order before the signature of an envelope is compared: that it carries its payload and a chain of
certificates, names an algorithm, and that the first certificate has a key to compare with. -/
structure Presents (P : Provider) (e : Envelope) (payload : Octets) (chain : List Certificate) (a : Algorithm)
    (k : PublicKey) : Prop where
  payload : e.payload? = some payload
  certificates : ∃ ders, e.chain? = .ok (some ders) ∧ List.Forall₂ (Certificate.ofDer · = .ok ·) ders chain
  algorithm : e.algorithm? = .ok (some a)
  signer : ∃ leaf, chain.head? = some leaf ∧ leaf.publicKey P = .ok k

/-- The signature of the envelope is that of its first certificate. -/
def Verified (P : Provider) (e : Envelope) : Prop :=
  ∃ payload chain a k, Presents P e payload chain a k ∧ e.verify P k none a = .ok true

theorem chain_ne_nil {e : Envelope} {ders : List Octets} {chain : List Certificate} (h : e.chain? = .ok (some ders))
    (hc : ders.mapM Certificate.ofDer = .ok chain) : chain ≠ [] := by
  rintro rfl
  exact Envelope.chain?_ne_nil h (List.forall₂_nil_right_iff.mp (mapM_eq_ok_iff.mp hc))

def accept (payload : Octets) (chain : List Certificate) : Outcome SignedIssuerList := do
  let list ← Cbor.decode payload >>= IssuerList.ofItem
  return ⟨list, chain⟩

theorem ofEnvelope_eq (P : Provider) (e : Envelope) :
    ofEnvelope P e = (do
      let payload ← Field.required "VICAL payload" e.payload?
      let c ← claim e
      e.verifySigner P c.algorithm c.leaf "VICAL"
      accept payload c.chain) := by
  simp only [ofEnvelope, claim, accept, bind_assoc, pure_bind]

theorem claim_eq_ok_iff {e : Envelope} {c : Claim} :
    claim e = .ok c ↔ (∃ ders, e.chain? = .ok (some ders) ∧ List.Forall₂ (Certificate.ofDer · = .ok ·) ders c.chain) ∧
      e.algorithm? = .ok (some c.algorithm) ∧ c.chain.head? = some c.leaf := by
  simp only [claim, bind_eq_ok_iff, Envelope.chain_eq_ok_iff, Envelope.algorithm_eq_ok_iff, mapM_eq_ok_iff,
    Field.required_eq_ok_iff]
  constructor
  · rintro ⟨ders, hders, a, ha, chain, hchain, leaf, hleaf, ⟨⟩⟩
    exact ⟨⟨ders, hders, hchain⟩, ha, hleaf⟩
  · rintro ⟨⟨ders, hders, hchain⟩, ha, hleaf⟩
    exact ⟨ders, hders, _, ha, _, hchain, _, hleaf, rfl⟩

theorem presents_iff_claim {e : Envelope} {payload : Octets} {chain : List Certificate} {a : Algorithm}
    {k : PublicKey} :
    Presents P e payload chain a k ↔
      e.payload? = some payload ∧ ∃ leaf, claim e = .ok ⟨chain, a, leaf⟩ ∧ leaf.publicKey P = .ok k := by
  simp only [claim_eq_ok_iff]
  constructor
  · rintro ⟨hp, hchain, ha, leaf, hleaf, hk⟩
    exact ⟨hp, leaf, ⟨hchain, ha, hleaf⟩, hk⟩
  · rintro ⟨hp, leaf, ⟨hchain, ha, hleaf⟩, hk⟩
    exact ⟨hp, hchain, ha, leaf, hleaf, hk⟩

theorem unforged_claim (e : Envelope) : Unforged (claim e) := by
  apply faultsIn_bind e.formal_chain.unforged
  intro ders
  apply faultsIn_bind e.formal_algorithm.unforged
  intro a
  apply faultsIn_bind (faultsIn_mapM Certificate.unforged_ofDer ders)
  intro chain
  apply faultsIn_bind (Field.formal_required _ _).unforged
  intro leaf
  exact faultsIn_ok _

theorem unforged_accept (payload : Octets) (chain : List Certificate) : Unforged (accept payload chain) :=
  faultsIn_bind (Formal.unforged (faultsIn_bind (formal_decode payload) IssuerList.formal_ofItem))
    fun _ => faultsIn_ok _

/-- An envelope whose signature is right is worth what its payload is. -/
theorem ofEnvelope_of_presents {e : Envelope} {payload : Octets} {chain : List Certificate} {a : Algorithm}
    {k : PublicKey} (h : Presents P e payload chain a k) (hv : e.verify P k none a = .ok true) :
    ofEnvelope P e = accept payload chain := by
  obtain ⟨hp, leaf, hc, hk⟩ := presents_iff_claim.mp h
  have hsigner : e.verifySigner P a leaf "VICAL" = .ok () := Envelope.verifySigner_eq_ok_iff.mpr ⟨k, hk, hv⟩
  rw [ofEnvelope_eq, Field.required_eq_ok_iff.mpr hp, ok_bind, hc, ok_bind, hsigner, ok_bind]

theorem ofEnvelope_eq_ok_iff {e : Envelope} {l : SignedIssuerList} :
    ofEnvelope P e = .ok l ↔ ∃ payload a k, Presents P e payload l.chain a k ∧ e.verify P k none a = .ok true ∧
      (Cbor.decode payload >>= IssuerList.ofItem) = .ok l.list := by
  constructor
  · intro h
    rw [ofEnvelope_eq] at h
    obtain ⟨payload, hp, h⟩ := bind_eq_ok_iff.mp h
    obtain ⟨⟨chain, a, leaf⟩, hc, h⟩ := bind_eq_ok_iff.mp h
    obtain ⟨hsigner, h⟩ := then_eq_ok_iff.mp h
    obtain ⟨k, hk, hv⟩ := Envelope.verifySigner_eq_ok_iff.mp hsigner
    obtain ⟨list, hlist, ⟨⟩⟩ := bind_eq_ok_iff.mp h
    exact ⟨payload, a, k, presents_iff_claim.mpr ⟨Field.required_eq_ok_iff.mp hp, leaf, hc, hk⟩, hv, hlist⟩
  · rintro ⟨payload, a, k, h, hv, hlist⟩
    rw [ofEnvelope_of_presents h hv]
    exact bind_eq_ok_iff.mpr ⟨_, hlist, rfl⟩

theorem ofEnvelope_eq_forged_iff {e : Envelope} :
    (∃ d, ofEnvelope P e = .error (.forged d)) ↔
      ∃ payload chain a k, Presents P e payload chain a k ∧ e.verify P k none a = .ok false := by
  simp only [ofEnvelope_eq, presents_iff_claim]
  constructor
  · rintro ⟨d, h⟩
    obtain h | ⟨payload, hp, h⟩ := bind_eq_error_iff.mp h
    · cases (Field.formal_required _ _).unforged _ h
    obtain h | ⟨⟨chain, a, leaf⟩, hc, h⟩ := bind_eq_error_iff.mp h
    · cases unforged_claim e _ h
    obtain h | ⟨_, -, h⟩ := bind_eq_error_iff.mp h
    · obtain ⟨k, hk, hv⟩ := Envelope.verifySigner_eq_forged_iff.mp ⟨d, h⟩
      exact ⟨payload, chain, a, k, ⟨Field.required_eq_ok_iff.mp hp, leaf, hc, hk⟩, hv⟩
    · cases unforged_accept payload chain _ h
  · rintro ⟨payload, chain, a, k, ⟨hp, leaf, hc, hk⟩, hv⟩
    obtain ⟨d, hd⟩ : ∃ d, e.verifySigner P a leaf "VICAL" = .error (.forged d) :=
      Envelope.verifySigner_eq_forged_iff.mpr ⟨k, hk, hv⟩
    refine ⟨d, bind_eq_error_iff.mpr (.inr ⟨payload, Field.required_eq_ok_iff.mpr hp, ?_⟩)⟩
    refine bind_eq_error_iff.mpr (.inr ⟨_, hc, ?_⟩)
    exact bind_eq_error_iff.mpr (.inl hd)

theorem verified_iff_claim {e : Envelope} {payload : Octets} (hp : e.payload? = some payload) :
    Verified P e ↔ ∃ c, claim e = .ok c ∧ e.verifySigner P c.algorithm c.leaf "VICAL" = .ok () := by
  simp only [Verified, presents_iff_claim, Envelope.verifySigner_eq_ok_iff]
  constructor
  · rintro ⟨_, chain, a, k, ⟨-, leaf, hc, hk⟩, hv⟩
    exact ⟨_, hc, k, hk, hv⟩
  · rintro ⟨⟨chain, a, leaf⟩, hc, k, hk, hv⟩
    exact ⟨payload, chain, a, k, ⟨hp, leaf, hc, hk⟩, hv⟩

theorem ofEnvelope_of_unverified {e : Envelope} {p q : Octets} (hp : e.payload? = some p) (h : ¬ Verified P e)
    (hq : ¬ Verified P { e with payload? := some q }) :
    ∃ d, ofEnvelope P e = .error d ∧ ofEnvelope P { e with payload? := some q } = .error d := by
  have hsame : claim { e with payload? := some q } = claim e := rfl
  simp only [verified_iff_claim hp] at h
  simp only [verified_iff_claim (e := { e with payload? := some q }) rfl, hsame] at hq
  simp only [ofEnvelope_eq, hsame, hp, Field.required]
  cases hc : claim e with
  | error d => exact ⟨d, rfl, rfl⟩
  | ok c =>
    have hv (hok : e.verifySigner P c.algorithm c.leaf "VICAL" = .ok ()) : False := h ⟨c, hc, hok⟩
    have hw (hok : Envelope.verifySigner { e with payload? := some q } P c.algorithm c.leaf "VICAL" = .ok ()) :
        False := hq ⟨c, hc, hok⟩
    obtain ⟨d, hd, hd'⟩ := Envelope.verifySigner_of_payload hp hv hw
    refine ⟨d, ?_, ?_⟩
    · rw [ok_bind, ok_bind, hd, error_bind]
    · rw [ok_bind, ok_bind, hd', error_bind]

/-- A list comes from a payload whose signature is right, and is refused as forged exactly if all else is in order and
the signature is wrong. Under a signature that is not right, one payload is as good as another. There is always a first
certificate to take the key from. -/
theorem parse_authentic (P : Provider) :
    (∀ b l, parse P b = .ok l ↔ ∃ e payload a k, Envelope.decode b = .ok e ∧ Presents P e payload l.chain a k ∧
        e.verify P k none a = .ok true ∧ (Cbor.decode payload >>= IssuerList.ofItem) = .ok l.list) ∧
      (∀ b, (∃ d, parse P b = .error (.forged d)) ↔ ∃ e payload chain a k, Envelope.decode b = .ok e ∧
        Presents P e payload chain a k ∧ e.verify P k none a = .ok false) ∧
      (∀ b c e p q, Envelope.decode b = .ok e → e.payload? = some p →
        Envelope.decode c = .ok { e with payload? := some q } →
        ¬ Verified P e → ¬ Verified P { e with payload? := some q } →
        ∃ d, parse P b = .error d ∧ parse P c = .error d) ∧
      ∀ (e : Envelope) (ders : List Octets) (chain : List Certificate), e.chain = .ok ders →
        ders.mapM Certificate.ofDer = .ok chain → chain ≠ [] := by
  refine ⟨?_, ?_, ?_, ?_⟩
  · intro b l
    rw [parse, bind_eq_ok_iff]
    simp only [ofEnvelope_eq_ok_iff]
    constructor
    · rintro ⟨e, he, payload, a, k, h⟩
      exact ⟨e, payload, a, k, he, h⟩
    · rintro ⟨e, payload, a, k, he, h⟩
      exact ⟨e, he, payload, a, k, h⟩
  · intro b
    constructor
    · rintro ⟨d, h⟩
      obtain h | ⟨e, he, h⟩ := bind_eq_error_iff.mp h
      · cases (Envelope.formal_envelope_decode b).unforged _ h
      · obtain ⟨payload, chain, a, k, h⟩ := ofEnvelope_eq_forged_iff.mp ⟨d, h⟩
        exact ⟨e, payload, chain, a, k, he, h⟩
    · rintro ⟨e, payload, chain, a, k, he, h⟩
      obtain ⟨d, hd⟩ := ofEnvelope_eq_forged_iff.mpr ⟨payload, chain, a, k, h⟩
      exact ⟨d, bind_eq_error_iff.mpr (.inr ⟨e, he, hd⟩)⟩
  · intro b c e p q hb hp hc hv hw
    obtain ⟨d, hd, hd'⟩ := ofEnvelope_of_unverified hp hv hw
    exact ⟨d, bind_eq_error_iff.mpr (.inr ⟨_, hb, hd⟩), bind_eq_error_iff.mpr (.inr ⟨_, hc, hd'⟩)⟩
  · intro e ders chain hders hchain
    exact chain_ne_nil (Envelope.chain_eq_ok_iff.mp hders) hchain

end SignedIssuerList

end Provenance
