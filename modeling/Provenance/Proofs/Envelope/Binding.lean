import Provenance.Proofs.Cbor.Prefixes
import Provenance.Proofs.Envelope.Signers

/-!
What a signature binds: the octets of the protected header and the payload, these two and nothing else.
-/
namespace Provenance

/-- Keys of a type that signatures of the algorithm are made with. -/
def Algorithm.Suits : Algorithm → NativeKey → Prop
  | eddsa, .octets c _ => c = .ed25519 ∨ c = .ed448
  | eddsa, _ => False
  | _, .point .. => True
  | _, _ => False

theorem Curve.scheme?_eq_none_iff {c : Curve} : c.scheme? = none ↔ ¬ (c = .ed25519 ∨ c = .ed448) := by
  cases c <;> simp [Curve.scheme?]

theorem verify_eq_error_iff {P : Provider} {n : NativeKey} {a : Algorithm} {m signature : Octets} :
    (∃ d, verify P n a m signature = .error d) ↔ ¬ a.Suits n := by
  cases n with
  | point g x y =>
    cases a with
    | eddsa => simp [verify, Algorithm.digest?, Algorithm.misfit, Algorithm.Suits]
    | _ => simp only [verify, Algorithm.digest?, Algorithm.Suits]; split <;> simp
  | octets c b =>
    cases a with
    | eddsa =>
      simp only [verify, Algorithm.digest?, Algorithm.Suits, ← Curve.scheme?_eq_none_iff]
      split <;> simp_all [Algorithm.misfit]
    | _ => simp [verify, Algorithm.digest?, Algorithm.misfit, Algorithm.Suits]
  | rsa n e => cases a <;> simp [verify, Algorithm.digest?, Algorithm.misfit, Algorithm.Suits]
  | other k => cases a <;> simp [verify, Algorithm.digest?, Algorithm.misfit, Algorithm.Suits]

namespace Envelope

open Cbor

variable {P : Provider} {e : Envelope} {a : Algorithm} {k : PublicKey} {detached? : Option Octets}
  {payload : Octets}

theorem octets_signedItem (raw payload : Octets) :
    (signedItem raw payload).octets =
      Head.write 4 4 ++ (measured 3 (Text.octets "Signature1") ++
        (measured 2 raw ++ (measured 2 [] ++ measured 2 payload))) := by
  simp [signedItem, Item.octets, Item.octetsOfItems, measured]

theorem signedItem_inj {raw raw' payload payload' : Octets} (hraw : raw.length < 2 ^ 64)
    (hraw' : raw'.length < 2 ^ 64) (h : (signedItem raw payload).octets = (signedItem raw' payload').octets) :
    raw = raw' ∧ payload = payload' := by
  rw [octets_signedItem, octets_signedItem] at h
  have hstrings := List.append_cancel_left (List.append_cancel_left h)
  obtain ⟨rfl, hrest⟩ := measured_append_inj (by decide) hraw hraw' hstrings
  exact ⟨rfl, measured_inj (List.append_cancel_left hrest)⟩

/-- The payload that a signature is about: that of the envelope, or the one supplied where the envelope has none. -/
def HasPayload (e : Envelope) (detached? : Option Octets) (payload : Octets) : Prop :=
  e.payload? = some payload ∧ detached? = none ∨ e.payload? = none ∧ detached? = some payload

theorem effectivePayload_eq_ok_iff : e.effectivePayload detached? = .ok payload ↔ e.HasPayload detached? payload := by
  unfold effectivePayload HasPayload
  cases e.payload? <;> cases detached? <;> simp

theorem effectivePayload_eq_error_iff :
    (∃ d, e.effectivePayload detached? = .error d) ↔ e.payload?.isSome = detached?.isSome := by
  unfold effectivePayload
  cases e.payload? <;> cases detached? <;> simp

theorem verify_of_hasPayload (h : e.HasPayload detached? payload) :
    e.verify P k detached? a = (k.native P >>= fun native =>
      Provenance.verify P native a (signedItem e.rawProtected payload).octets e.signature) :=
  verify_of_effectivePayload (effectivePayload_eq_ok_iff.mpr h)

theorem verify_eq_error_iff :
    (∃ d, e.verify P k detached? a = .error d) ↔
      e.payload?.isSome = detached?.isSome ∨ (∃ d, k.native P = .error d) ∨
        ∃ native, k.native P = .ok native ∧ ¬ a.Suits native := by
  rw [← effectivePayload_eq_error_iff]
  cases hp : e.effectivePayload detached? with
  | error d => simp [verify, hp]
  | ok payload =>
    rw [verify_of_hasPayload (effectivePayload_eq_ok_iff.mp hp)]
    cases hk : k.native P with
    | error d => simp
    | ok native => simp [Provenance.verify_eq_error_iff]

theorem algorithm?_of_protected {x : Item} (h : e.protectedHeader.label? algorithmLabel.toInt = some x)
    (unprotectedHeader : Entries) : algorithm? { e with unprotectedHeader := unprotectedHeader } = e.algorithm? := by
  simp [algorithm?, h]

/-- There are octets to sign for every header and payload, and no two pairs of them share these: no octet string of a
machine with words of 64 bits is longer than assumed here. Whether a signature is right depends on the octets of the
protected header, the signature and the payload, and not on where the payload is or what else the envelope holds. It
cannot be told exactly if there is not one payload, or no key, or a key that the algorithm does not suit. And the
algorithm of the protected header is out of reach of the other. -/
theorem signature_binds (P : Provider) :
    (∀ raw payload, ∃ b, signedOctets raw payload = .ok b) ∧
      (∀ raw payload raw' payload', raw.length < 2 ^ 64 → raw'.length < 2 ^ 64 →
        signedOctets raw payload = signedOctets raw' payload' → raw = raw' ∧ payload = payload') ∧
      (∀ (k : PublicKey) (a : Algorithm) (e e' : Envelope) detached? detached?' payload,
        e.rawProtected = e'.rawProtected → e.signature = e'.signature →
        e.HasPayload detached? payload → e'.HasPayload detached?' payload →
        e.verify P k detached? a = e'.verify P k detached?' a) ∧
      (∀ (k : PublicKey) (a : Algorithm) (e : Envelope) detached?,
        (∃ d, e.verify P k detached? a = .error d) ↔
          e.payload?.isSome = detached?.isSome ∨ (∃ d, k.native P = .error d) ∨
            ∃ native, k.native P = .ok native ∧ ¬ a.Suits native) ∧
      ∀ (e : Envelope) x unprotectedHeader, e.protectedHeader.label? algorithmLabel.toInt = some x →
        algorithm? { e with unprotectedHeader := unprotectedHeader } = e.algorithm? := by
  refine ⟨?_, ?_, ?_, ?_, ?_⟩
  · intro raw payload
    exact ⟨_, signedOctets_eq raw payload⟩
  · intro raw payload raw' payload' hraw hraw' h
    rw [signedOctets_eq, signedOctets_eq] at h
    exact signedItem_inj hraw hraw' (Except.ok.inj h)
  · intro k a e e' detached? detached?' payload hprotected hsignature hp hp'
    rw [verify_of_hasPayload hp, verify_of_hasPayload hp', hprotected, hsignature]
  · intro k a e detached?
    exact verify_eq_error_iff
  · intro e x unprotectedHeader h
    exact algorithm?_of_protected h unprotectedHeader

end Envelope

end Provenance
