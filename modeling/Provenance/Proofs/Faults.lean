import Provenance.Certificate.Basic
import Provenance.Envelope.Signer
import Provenance.Proofs.Outcome

/-!
Which kinds of fault a computation can end with. What reads data items and envelopes refuses them as malformed, and
nothing but the comparison of a signature reports one as forged.
-/
namespace Provenance

open Cbor

variable {α β : Type} {p : Fault → Prop}

def FaultsIn (p : Fault → Prop) (x : Outcome α) : Prop := ∀ e, x = .error e → p e

abbrev Formal (x : Outcome α) : Prop := FaultsIn (·.isFormat = true) x

abbrev Unforged (x : Outcome α) : Prop := FaultsIn (·.isSignature = false) x

theorem faultsIn_ok (a : α) : FaultsIn p (.ok a) := nofun

theorem faultsIn_error {e : Fault} (h : p e) : FaultsIn p (.error e : Outcome α) := by
  rintro f ⟨⟩
  exact h

theorem faultsIn_bind {x : Outcome α} {f : α → Outcome β} (hx : FaultsIn p x) (hf : ∀ a, FaultsIn p (f a)) :
    FaultsIn p (x >>= f) := by
  intro e h
  obtain h | ⟨a, -, h⟩ := bind_eq_error_iff.mp h
  · exact hx e h
  · exact hf a e h

theorem faultsIn_map {x : Outcome α} {f : α → β} (hx : FaultsIn p x) : FaultsIn p (x.map f) := by
  cases x with
  | error e => exact faultsIn_error (hx e rfl)
  | ok a => exact faultsIn_ok _

theorem faultsIn_mapM {f : α → Outcome β} (hf : ∀ a, FaultsIn p (f a)) (xs : List α) : FaultsIn p (xs.mapM f) := by
  induction xs with
  | nil => exact faultsIn_ok []
  | cons x xs ih =>
    rw [List.mapM_cons]
    exact faultsIn_bind (hf x) fun _ => faultsIn_bind ih fun _ => faultsIn_ok _

theorem faultsIn_foldlM {f : β → α → Outcome β} (hf : ∀ b a, FaultsIn p (f b a)) (xs : List α) (b : β) :
    FaultsIn p (xs.foldlM f b) := by
  induction xs generalizing b with
  | nil => exact faultsIn_ok b
  | cons x xs ih =>
    rw [List.foldlM_cons]
    exact faultsIn_bind (hf b x) ih

theorem faultsIn_getD {o : Option α} {x : Outcome α} (hx : FaultsIn p x) : FaultsIn p ((o.map pure).getD x) := by
  cases o with
  | none => exact hx
  | some a => exact faultsIn_ok a

theorem faultsIn_refuse {c : Prop} [Decidable c] {e : Fault} {y z : Outcome α} (he : p e) (hz : FaultsIn p z) :
    FaultsIn p (if c then (do throw e; y) else z) := by
  split
  · exact faultsIn_error he
  · exact hz

theorem Formal.unforged {x : Outcome α} (h : Formal x) : Unforged x := by
  intro e he
  exact ((Fault.isFormat_iff e).mp (h e he)).1

namespace Cbor

theorem Flaw.isFormat_fault (f : Flaw) (n : Nat) : (f.fault n).isFormat = true := by cases f <;> rfl

theorem formal_mapError {x : Except Flaw α} {n : Nat} : Formal (x.mapError (Flaw.fault n)) := by
  cases x with
  | error f => exact faultsIn_error (f.isFormat_fault n)
  | ok a => exact faultsIn_ok a

theorem formal_decode (b : Octets) : Formal (decode b) := formal_mapError

theorem formal_encode (x : Item) : Formal (encode x) := formal_mapError

namespace Field

variable (name : String) (x : Item)

theorem formal_mustBe (shape : String) : Formal (mustBe name shape : Outcome α) := faultsIn_error rfl

theorem formal_text : Formal (text name x) := faultsIn_getD (formal_mustBe _ _)

theorem formal_bytes : Formal (bytes name x) := faultsIn_getD (formal_mustBe _ _)

theorem formal_int : Formal (int name x) := faultsIn_getD (formal_mustBe _ _)

theorem formal_array : Formal (array name x) := faultsIn_getD (formal_mustBe _ _)

theorem formal_map : Formal (map name x) := faultsIn_getD (formal_mustBe _ _)

theorem formal_uint : Formal (uint name x) := by
  cases x with
  | unsigned n => exact faultsIn_ok n
  | _ => exact faultsIn_bind (formal_int _ _) fun _ => formal_mustBe _ _

theorem formal_each {read : String → Item → Outcome α} (hr : ∀ name x, Formal (read name x)) (i : Nat)
    (xs : List Item) : Formal (each name read i xs) := by
  induction xs generalizing i with
  | nil => exact faultsIn_ok []
  | cons x xs ih => exact faultsIn_bind (hr _ _) fun _ => faultsIn_bind (ih _) fun _ => faultsIn_ok _

theorem formal_texts : Formal (texts name x) :=
  faultsIn_bind (formal_array _ _) fun xs => formal_each _ formal_text 0 xs

theorem formal_timestamp (s : String) : Formal (timestamp name s) := by
  unfold timestamp
  split
  · exact faultsIn_ok _
  · exact faultsIn_error rfl

theorem formal_epoch (secs : Int) : Formal (epoch name secs) := by
  unfold epoch
  split
  · exact faultsIn_ok _
  · exact faultsIn_error rfl

theorem formal_date : Formal (date name x) := by
  unfold date
  split
  · exact faultsIn_bind (formal_int _ _) fun _ => formal_epoch _ _
  · exact faultsIn_bind (formal_text _ _) fun _ => formal_timestamp _ _
  · exact formal_timestamp _ _
  · exact faultsIn_error rfl
  · exact formal_mustBe _ _

theorem formal_bignum : Formal (bignum name x) := by
  unfold bignum
  split
  · exact faultsIn_map (formal_bytes _ _)
  · exact faultsIn_ok _
  · exact faultsIn_map (formal_uint _ _)
  · exact formal_mustBe _ _

theorem formal_required (o : Option α) : Formal (required name o) := by
  cases o with
  | none => exact faultsIn_error rfl
  | some a => exact faultsIn_ok a

theorem formal_record {σ : Type} {put : σ → Option String → Item → Outcome σ} (hp : ∀ s k x, Formal (put s k x))
    (empty : σ) : Formal (record name put empty x) :=
  faultsIn_bind (formal_map _ _) fun es => faultsIn_foldlM (fun _ _ => hp _ _ _) es empty

end Field

end Cbor

theorem Algorithm.formal_ofId (i : Int) : Formal (Algorithm.ofId i) := by
  unfold Algorithm.ofId
  split
  · exact faultsIn_ok _
  · exact faultsIn_error rfl

namespace Envelope

variable (e : Envelope)

theorem formal_readProtected (raw : Octets) : Formal (readProtected raw) := by
  unfold readProtected
  split
  · exact faultsIn_ok _
  · exact faultsIn_bind (formal_decode _) fun _ => Field.formal_map _ _

theorem formal_payloadOf (x : Item) : Formal (payloadOf x) := by
  unfold payloadOf
  split
  · exact faultsIn_ok _
  · exact faultsIn_ok _
  · exact faultsIn_error rfl

theorem formal_ofArray (xs : List Item) : Formal (ofArray xs) := by
  unfold ofArray
  split
  · apply faultsIn_bind (Field.formal_bytes _ _)
    intro raw
    apply faultsIn_bind (formal_readProtected raw)
    intro header
    apply faultsIn_bind (Field.formal_map _ _)
    intro unprotectedHeader
    apply faultsIn_bind (formal_payloadOf _)
    intro payload?
    apply faultsIn_bind (Field.formal_bytes _ _)
    intro signature
    exact faultsIn_ok _
  · exact faultsIn_error rfl

theorem formal_ofItem (x : Item) : Formal (ofItem x) := by
  unfold ofItem
  split
  · split
    · exact faultsIn_bind (Field.formal_array _ _) formal_ofArray
    · exact faultsIn_error rfl
  · exact faultsIn_bind (Field.formal_array _ _) formal_ofArray

theorem formal_envelope_decode (b : Octets) : Formal (Envelope.decode b) :=
  faultsIn_bind (formal_decode b) formal_ofItem

theorem formal_algorithm? : Formal e.algorithm? := by
  unfold algorithm?
  split
  · exact faultsIn_ok _
  · exact faultsIn_bind (faultsIn_bind (Field.formal_int _ _) Algorithm.formal_ofId) fun _ => faultsIn_ok _

theorem formal_chainOf (x : Item) : Formal (chainOf x) := by
  unfold chainOf
  split
  · exact faultsIn_ok _
  · exact faultsIn_error rfl
  · exact Field.formal_each _ Field.formal_bytes 0 _
  · exact faultsIn_error rfl

theorem formal_chain? : Formal e.chain? := by
  unfold chain?
  split
  · exact faultsIn_ok _
  · exact faultsIn_map (formal_chainOf _)

theorem formal_algorithm : Formal e.algorithm :=
  faultsIn_bind (formal_algorithm? e) fun _ => Field.formal_required _ _

theorem formal_chain : Formal e.chain := faultsIn_bind (formal_chain? e) fun _ => Field.formal_required _ _

theorem formal_effectivePayload (detached? : Option Octets) : Formal (e.effectivePayload detached?) := by
  unfold effectivePayload
  split
  · exact faultsIn_ok _
  · exact faultsIn_ok _
  · exact faultsIn_error rfl
  · exact faultsIn_error rfl

end Envelope

namespace PublicKey

theorem formal_checkCoordinate (c : Curve) (name : String) (b : Octets) : Formal (checkCoordinate c name b) := by
  unfold checkCoordinate
  split
  · exact faultsIn_ok _
  · exact faultsIn_error rfl

theorem formal_point (c : Curve) (x y : Octets) : Formal (point c x y) :=
  faultsIn_refuse rfl <| faultsIn_bind (formal_checkCoordinate _ _ _) fun _ =>
    faultsIn_bind (formal_checkCoordinate _ _ _) fun _ => faultsIn_ok _

theorem formal_okp (c : Curve) (x : Octets) : Formal (okp c x) :=
  faultsIn_refuse rfl <| faultsIn_bind (formal_checkCoordinate _ _ _) fun _ => faultsIn_ok _

theorem formal_curve (i : Int) : Formal (Curve.ofId i) := by
  unfold Curve.ofId
  split
  · exact faultsIn_ok _
  · exact faultsIn_error rfl

theorem formal_required (es : Entries) (name : String) (label : Int64) : Formal (required es name label) := by
  unfold required
  split
  · exact faultsIn_ok _
  · exact faultsIn_error rfl

theorem formal_ofMap (x : Item) : Formal (ofMap x) := by
  unfold ofMap
  apply faultsIn_bind (Field.formal_map _ _)
  intro es
  apply faultsIn_bind (faultsIn_bind (formal_required _ _ _) fun _ => Field.formal_int _ _)
  intro kty
  apply faultsIn_bind (faultsIn_bind (faultsIn_bind (formal_required _ _ _) fun _ => Field.formal_int _ _) formal_curve)
  intro c
  apply faultsIn_bind (faultsIn_bind (formal_required _ _ _) fun _ => Field.formal_bytes _ _)
  intro x
  split
  · apply faultsIn_bind (formal_required _ _ _)
    intro y
    split
    · exact faultsIn_error rfl
    · exact faultsIn_bind (Field.formal_bytes _ _) fun _ => formal_point _ _ _
  · split
    · exact formal_okp _ _
    · exact faultsIn_error rfl

theorem formal_ofNumber (n : Nat) : Formal (Curve.ofNumber n) := by
  unfold Curve.ofNumber
  split
  · exact faultsIn_ok _
  · exact faultsIn_error rfl

theorem formal_ofGroup (g : Crypto.Group) : Formal (Curve.ofGroup g) := by
  unfold Curve.ofGroup
  split
  · exact formal_ofNumber _
  · exact faultsIn_error rfl

theorem unforged_padded (width n : Nat) : Unforged (padded width n) := faultsIn_getD (faultsIn_error rfl)

theorem unforged_ofNative (k : NativeKey) : Unforged (ofNative k) := by
  cases k with
  | point g x y =>
    apply faultsIn_bind (formal_ofGroup g).unforged
    intro c
    apply faultsIn_bind (unforged_padded _ _)
    intro x
    apply faultsIn_bind (unforged_padded _ _)
    intro y
    exact (formal_point c x y).unforged
  | octets c b => exact (formal_okp c b).unforged
  | rsa n e => exact faultsIn_error rfl
  | other k => exact faultsIn_error rfl

theorem formal_native (P : Provider) (k : PublicKey) : Formal (k.native P) := by
  cases k with
  | affine c x y =>
    simp only [native]
    split
    · exact faultsIn_error rfl
    · split
      · exact faultsIn_ok _
      · exact faultsIn_error rfl
  | single c x =>
    simp only [native]
    split
    · exact faultsIn_ok _
    · exact faultsIn_error rfl

end PublicKey

theorem Algorithm.formal_misfit (a : Algorithm) (n : Nat) : Formal (a.misfit n : Outcome α) := faultsIn_error rfl

theorem formal_verify (P : Provider) (k : NativeKey) (a : Algorithm) (m signature : Octets) :
    Formal (verify P k a m signature) := by
  unfold verify
  split
  · split <;> exact faultsIn_ok _
  · split
    · exact faultsIn_ok _
    · exact a.formal_misfit _
  · exact a.formal_misfit _

theorem Envelope.formal_verify (P : Provider) (k : PublicKey) (detached? : Option Octets) (e : Envelope)
    (a : Algorithm) : Formal (e.verify P k detached? a) :=
  faultsIn_bind (formal_effectivePayload e _) fun _ => faultsIn_bind (formal_encode _) fun _ =>
    faultsIn_bind (k.formal_native P) fun _ => Provenance.formal_verify P _ a _ _

namespace Certificate

theorem unforged_ofDer (b : Octets) : Unforged (ofDer b) := by
  unfold ofDer
  split
  · exact faultsIn_error rfl
  · split
    · exact faultsIn_error rfl
    · split
      · exact faultsIn_ok _
      · exact faultsIn_error rfl

theorem unforged_publicKey (P : Provider) (c : Certificate) : Unforged (c.publicKey P) := by
  apply faultsIn_bind
  · unfold nativeKey
    split
    · exact faultsIn_ok _
    · exact faultsIn_error rfl
  · exact PublicKey.unforged_ofNative

end Certificate

end Provenance
