import Provenance.Proofs.Cbor.Fields
import Provenance.Proofs.Faults

/-!
Signers: when an envelope is found to be signed by the certificate that it carries, when it is not, and what of the
envelope decides it.
-/
namespace Provenance.Envelope

open Cbor

variable {P : Provider} {e f : Envelope} {a : Algorithm} {k : PublicKey} {signer : Certificate} {what : String}

/-- What is signed has octets whatever the header and the payload are. -/
theorem signedOctets_eq (raw payload : Octets) : signedOctets raw payload = .ok (signedItem raw payload).octets := rfl

theorem chain_eq_ok_iff {ders : List Octets} : e.chain = .ok ders ↔ e.chain? = .ok (some ders) := by
  rw [chain, bind_eq_ok_iff]
  constructor
  · rintro ⟨_ | bs, h, hb⟩
    · cases hb
    · cases hb
      exact h
  · intro h
    exact ⟨_, h, rfl⟩

theorem algorithm_eq_ok_iff : e.algorithm = .ok a ↔ e.algorithm? = .ok (some a) := by
  rw [algorithm, bind_eq_ok_iff]
  constructor
  · rintro ⟨_ | b, h, hb⟩
    · cases hb
    · cases hb
      exact h
  · intro h
    exact ⟨_, h, rfl⟩

theorem chainOf_ne_nil {x : Item} {ders : List Octets} (h : chainOf x = .ok ders) : ders ≠ [] := by
  unfold chainOf at h
  split at h
  · cases h
    exact List.cons_ne_nil _ _
  · cases h
  · next hne =>
    rintro rfl
    exact hne (List.length_eq_zero_iff.mp (Field.length_of_each h).symm)
  · cases h

theorem chain?_ne_nil {ders : List Octets} (h : e.chain? = .ok (some ders)) : ders ≠ [] := by
  unfold chain? at h
  split at h
  · cases h
  · next x _ =>
    cases hx : chainOf x with
    | error d => rw [hx] at h; cases h
    | ok bs =>
      rw [hx] at h
      cases h
      exact chainOf_ne_nil hx

theorem verifySigner_of_key (h : signer.publicKey P = .ok k) :
    e.verifySigner P a signer what = match e.verify P k none a with
      | .ok true => .ok ()
      | .ok false => .error (.forged s!"{what} not signed by {signer.subject}")
      | .error d => .error d := by
  rw [verifySigner, h]
  cases hv : e.verify P k none a with
  | error d => simp [bind, Except.bind, hv]
  | ok b => cases b <;> simp [bind, Except.bind, hv] <;> rfl

theorem verifySigner_of_no_key {d : Fault} (h : signer.publicKey P = .error d) :
    e.verifySigner P a signer what = .error d := by
  rw [verifySigner, h]
  rfl

theorem verifySigner_eq_ok_iff :
    e.verifySigner P a signer what = .ok () ↔ ∃ k, signer.publicKey P = .ok k ∧ e.verify P k none a = .ok true := by
  cases h : signer.publicKey P with
  | error d => simp [verifySigner_of_no_key h]
  | ok k =>
    rw [verifySigner_of_key h]
    cases hv : e.verify P k none a with
    | error d => simp [hv]
    | ok b => cases b <;> simp [hv]

theorem verifySigner_eq_forged_iff :
    (∃ d, e.verifySigner P a signer what = .error (.forged d)) ↔
      ∃ k, signer.publicKey P = .ok k ∧ e.verify P k none a = .ok false := by
  cases h : signer.publicKey P with
  | error d =>
    rw [verifySigner_of_no_key h]
    have hd := signer.unforged_publicKey P d h
    simp only [Except.error.injEq, reduceCtorEq, false_and, exists_false, iff_false, not_exists]
    rintro w rfl
    cases hd
  | ok k =>
    rw [verifySigner_of_key h]
    cases hv : e.verify P k none a with
    | error d =>
      have hd := (formal_verify P k none e a).unforged d hv
      simp only [Except.ok.injEq, Except.error.injEq, exists_eq_left', hv, reduceCtorEq, iff_false, not_exists]
      rintro w rfl
      cases hd
    | ok b => cases b <;> simp [hv]

theorem verify_of_effectivePayload {detached? : Option Octets} {payload : Octets}
    (h : e.effectivePayload detached? = .ok payload) :
    e.verify P k detached? a = (k.native P >>= fun native =>
      Provenance.verify P native a (signedItem e.rawProtected payload).octets e.signature) := by
  rw [verify, h, ok_bind, signedOctets_eq, ok_bind]

theorem verify_embedded {payload : Octets} (h : e.payload? = some payload) :
    e.verify P k none a = (k.native P >>= fun native =>
      Provenance.verify P native a (signedItem e.rawProtected payload).octets e.signature) := by
  have hp : e.effectivePayload none = .ok payload := by simp [effectivePayload, h]
  exact verify_of_effectivePayload hp

theorem verify_error_of_message {native : NativeKey} {m n signature : Octets} {d : Fault}
    (h : Provenance.verify P native a m signature = .error d) :
    Provenance.verify P native a n signature = .error d := by
  unfold Provenance.verify at h ⊢
  split at h
  · split at h <;> cases h
  · split at h
    · cases h
    · exact h
  · exact h

/-- The payload may decide whether a signature is right, but not whether it can be compared. -/
theorem verify_error_of_payload {p q : Octets} {d : Fault} (hp : e.payload? = some p)
    (h : e.verify P k none a = .error d) : Envelope.verify P k none { e with payload? := some q } a = .error d := by
  rw [verify_embedded hp] at h
  rw [verify_embedded (show Envelope.payload? { e with payload? := some q } = some q from rfl)]
  obtain h | ⟨native, hn, h⟩ := bind_eq_error_iff.mp h
  · rw [h]
    rfl
  · rw [hn]
    exact verify_error_of_message h

/-- Under two payloads for neither of which the signature is right the answer is the same. -/
theorem verify_of_payload {p q : Octets} (hp : e.payload? = some p) (h : e.verify P k none a ≠ .ok true)
    (hq : Envelope.verify P k none { e with payload? := some q } a ≠ .ok true) :
    Envelope.verify P k none { e with payload? := some q } a = e.verify P k none a := by
  cases hv : e.verify P k none a with
  | error d => exact verify_error_of_payload hp hv
  | ok b =>
    obtain rfl : b = false := Bool.eq_false_iff.mpr fun hb => h (hb ▸ hv)
    cases hw : Envelope.verify P k none { e with payload? := some q } a with
    | error d =>
      have hd := verify_error_of_payload (q := p) rfl hw
      rw [← hp] at hd
      cases hv.symm.trans hd
    | ok b => rw [Bool.eq_false_iff.mpr fun hb => hq (hb ▸ hw)]

theorem verify_ne_true_of_verifySigner (h : e.verifySigner P a signer what ≠ .ok ()) (hk : signer.publicKey P = .ok k) :
    e.verify P k none a ≠ .ok true := fun hv => h (verifySigner_eq_ok_iff.mpr ⟨k, hk, hv⟩)

/-- Two payloads under neither of which the signature is right are refused for the same reason. -/
theorem verifySigner_of_payload {p q : Octets} (hp : e.payload? = some p)
    (h : e.verifySigner P a signer what ≠ .ok ())
    (hq : verifySigner { e with payload? := some q } P a signer what ≠ .ok ()) :
    ∃ d, e.verifySigner P a signer what = .error d ∧
      verifySigner { e with payload? := some q } P a signer what = .error d := by
  obtain ⟨d, hd⟩ : ∃ d, e.verifySigner P a signer what = .error d := by
    cases hs : e.verifySigner P a signer what with
    | error d => exact ⟨d, rfl⟩
    | ok u => exact absurd hs h
  refine ⟨d, hd, ?_⟩
  cases hk : signer.publicKey P with
  | error d' => rwa [verifySigner_of_no_key hk] at hd ⊢
  | ok k =>
    rw [verifySigner_of_key hk] at hd ⊢
    rwa [verify_of_payload hp (verify_ne_true_of_verifySigner h hk) (verify_ne_true_of_verifySigner hq hk)]

/-- What is noted while a signature is refused does not depend on the payload. -/
theorem verifySignerLog_of_payload {p q : Octets} {noted : String} (hp : e.payload? = some p)
    (h : e.verifySigner P a signer what ≠ .ok ())
    (hq : verifySigner { e with payload? := some q } P a signer what ≠ .ok ()) :
    verifySignerLog { e with payload? := some q } P a signer noted = e.verifySignerLog P a signer noted := by
  unfold verifySignerLog verifyLog
  cases hk : signer.publicKey P with
  | error d => rfl
  | ok k =>
    have hv := verify_of_payload hp (verify_ne_true_of_verifySigner h hk) (verify_ne_true_of_verifySigner hq hk)
    rw [Outcome.log_ok, Outcome.log_ok, hv]

end Provenance.Envelope
