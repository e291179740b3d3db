import Provenance.Proofs.Cbor.RoundTrip
import Provenance.Proofs.Envelope.Signers
import Provenance.Proofs.Key.Matching

/-!
Envelopes that are signed and written are read back as they were and verify, as far as their headers are not nested
too deeply to be read.
-/
namespace Provenance.Envelope

open Cbor

variable {P : Provider} {e : Envelope} {a : Algorithm} {header unprotectedHeader : Entries} {b payload raw : Octets}

theorem readProtected_of_writeProtected (h : writeProtected header = .ok raw) (hlen : raw.length < 2 ^ 64)
    (hfits : (Item.map header).Fits (maxNesting + 1)) : readProtected raw = .ok header := by
  cases header with
  | nil =>
    cases h
    rfl
  | cons entry header =>
    have henc : Cbor.encode (.map (entry :: header)) = .ok raw := h
    rw [readProtected, if_neg (encode_ne_nil henc), Cbor.decode_of_fits henc hlen hfits]
    rfl

theorem payloadOf_eq_ok_iff {x : Item} {payload? : Option Octets} :
    payloadOf x = .ok payload? ↔ x = (payload?.map Item.bytes).getD .null := by
  unfold payloadOf
  cases payload? <;> split <;> simp_all

theorem ofArray_eq_ok_iff {xs : List Item} :
    ofArray xs = .ok e ↔ readProtected e.rawProtected = .ok e.protectedHeader ∧
      xs = [.bytes e.rawProtected, .map e.unprotectedHeader, (e.payload?.map Item.bytes).getD .null,
        .bytes e.signature] := by
  constructor
  · intro h
    unfold ofArray at h
    split at h
    · simp only [bind_eq_ok_iff, Field.bytes_eq_ok_iff, Field.map_eq_ok_iff, payloadOf_eq_ok_iff] at h
      obtain ⟨raw, rfl, header, hraw, unprotectedHeader, rfl, payload?, rfl, signature, rfl, ⟨⟩⟩ := h
      exact ⟨hraw, rfl⟩
    · cases h
  · rintro ⟨h, rfl⟩
    have hpayload : payloadOf ((e.payload?.map Item.bytes).getD .null) = .ok e.payload? := payloadOf_eq_ok_iff.mpr rfl
    simp only [ofArray, Field.bytes_bytes, Field.map_map, hpayload, h, ok_bind]
    rfl

/-- An envelope is read from its item, tagged or not, and from no other. -/
theorem ofItem_eq_ok_iff {x : Item} :
    ofItem x = .ok e ↔ readProtected e.rawProtected = .ok e.protectedHeader ∧ ∃ tagged, x = e.toItem tagged := by
  constructor
  · intro h
    unfold ofItem at h
    split at h
    · split at h
      case isTrue ht =>
        obtain ⟨xs, hxs, h⟩ := bind_eq_ok_iff.mp h
        obtain ⟨hraw, rfl⟩ := ofArray_eq_ok_iff.mp h
        refine ⟨hraw, true, ?_⟩
        rw [ht, Field.array_eq_ok_iff.mp hxs]
        rfl
      case isFalse => cases h
    · obtain ⟨xs, hxs, h⟩ := bind_eq_ok_iff.mp h
      obtain ⟨hraw, rfl⟩ := ofArray_eq_ok_iff.mp h
      exact ⟨hraw, false, Field.array_eq_ok_iff.mp hxs⟩
  · rintro ⟨h, tagged, rfl⟩
    cases tagged with
    | false => exact ofArray_eq_ok_iff.mpr ⟨h, rfl⟩
    | true => exact ofArray_eq_ok_iff.mpr ⟨h, rfl⟩

theorem ofItem_toItem (tagged : Bool) (h : readProtected e.rawProtected = .ok e.protectedHeader) :
    ofItem (e.toItem tagged) = .ok e :=
  ofItem_eq_ok_iff.mpr ⟨h, tagged, rfl⟩

theorem decode_of_fits {tagged : Bool} (h : e.encode tagged = .ok b) (hlen : b.length < 2 ^ 64)
    (hfits : (e.toItem tagged).Fits (maxNesting + 1)) (hraw : readProtected e.rawProtected = .ok e.protectedHeader) :
    decode b = .ok e := by
  rw [decode, Cbor.decode_of_fits h hlen hfits]
  exact ofItem_toItem tagged hraw

/-- A string that an envelope carries is no longer than the envelope. -/
theorem length_le_of_encode {tagged : Bool} {c : Octets} (h : e.encode tagged = .ok b)
    (hc : c = e.rawProtected ∨ e.payload? = some c) : c.length ≤ b.length := by
  obtain ⟨-, -, rfl⟩ := encode_eq_ok_iff.mp h
  have hmem : Item.bytes c ∈ [Item.bytes e.rawProtected, .map e.unprotectedHeader,
      (e.payload?.map Item.bytes).getD .null, .bytes e.signature] := by
    obtain rfl | hp := hc
    · exact List.mem_cons_self
    · simp [hp]
  have hpart := length_of_mem Item.octets hmem
  rw [Item.octets, List.length_append] at hpart
  have hbody : c.length ≤ (e.toItem false).octets.length := by
    simp only [toItem, Bool.false_eq_true, if_false]
    rw [Item.octets, Item.octetsOfItems_eq, List.length_append]
    omega
  cases tagged with
  | false => exact hbody
  | true =>
    refine hbody.trans ?_
    change _ ≤ (Item.tag tagNumber (e.toItem false)).octets.length
    rw [Item.octets, List.length_append]
    omega

theorem sign_eq_ok_iff {k : PrivateKey} {embed : Bool} :
    Envelope.sign P k payload a header unprotectedHeader embed = .ok e ↔
      ∃ raw signature, writeProtected header = .ok raw ∧
        Provenance.sign P k a (signedItem raw payload).octets = .ok signature ∧
        e = ⟨header, unprotectedHeader, if embed then some payload else none, signature, raw⟩ := by
  simp only [Envelope.sign, signedOctets_eq, bind_eq_ok_iff, Except.ok.injEq, exists_eq_left', pure, Except.pure]
  constructor
  · rintro ⟨raw, hraw, signature, hs, rfl⟩
    exact ⟨raw, signature, hraw, hs, rfl⟩
  · rintro ⟨raw, signature, hraw, hs, rfl⟩
    exact ⟨raw, hraw, signature, hs, rfl⟩

theorem parts_of_sign {k : PrivateKey} {embed : Bool}
    (h : Envelope.sign P k payload a header unprotectedHeader embed = .ok e) :
    e.protectedHeader = header ∧ e.unprotectedHeader = unprotectedHeader ∧
      e.payload? = (if embed then some payload else none) ∧ writeProtected header = .ok e.rawProtected := by
  obtain ⟨raw, signature, hraw, -, rfl⟩ := sign_eq_ok_iff.mp h
  exact ⟨rfl, rfl, rfl, hraw⟩

def algorithmHeader (a : Algorithm) : Entries := [(.label algorithmLabel, .label (.ofInt a.id))]

def chainHeader (ders : List Octets) : Entries := [(.label chainLabel, chainItem ders)]

theorem algorithm?_of_header (h : e.protectedHeader = algorithmHeader a) : e.algorithm? = .ok (some a) := by
  rw [algorithm?, h]
  cases a <;> rfl

theorem chainOf_chainItem {ders : List Octets} (h : ders ≠ []) : chainOf (chainItem ders) = .ok ders := by
  match ders with
  | [] => exact absurd rfl h
  | [_] => rfl
  | b :: c :: ders => exact Field.each_map Field.bytes_bytes 0 (b :: c :: ders)

theorem chain?_of_header {ders : List Octets} (h : e.unprotectedHeader = chainHeader ders) (hne : ders ≠ []) :
    e.chain? = .ok (some ders) := by
  have hlabel : Entries.label? (chainHeader ders) chainLabel.toInt = some (chainItem ders) := rfl
  rw [chain?, h, hlabel]
  simp [chainOf_chainItem hne]

theorem leaf_label (i : Int64) : (Item.label i).Leaf := by
  unfold Item.label
  split <;> trivial

theorem fits_algorithmHeader (a : Algorithm) : (Item.map (algorithmHeader a)).Fits 2 :=
  Item.fits_map_iff.mpr (List.forall_mem_singleton.mpr
    ⟨Item.fits_of_leaf (leaf_label algorithmLabel), Item.fits_of_leaf (leaf_label (.ofInt a.id))⟩)

theorem fits_chainItem (ders : List Octets) : (chainItem ders).Fits 2 := by
  unfold chainItem
  split
  · exact Item.fits_of_leaf trivial
  · exact Item.fits_array_of_leaves Item.bytes (fun _ => trivial) ders

theorem fits_chainHeader (ders : List Octets) : (Item.map (chainHeader ders)).Fits 3 :=
  Item.fits_map_iff.mpr (List.forall_mem_singleton.mpr ⟨Item.fits_of_leaf (leaf_label chainLabel), fits_chainItem ders⟩)

theorem fits_toItem {limit : Nat} (h : (Item.map e.unprotectedHeader).Fits (limit + 1)) :
    (e.toItem false).Fits (limit + 2) := by
  have hpayload : ((e.payload?.map Item.bytes).getD .null).Leaf := by cases e.payload? <;> trivial
  refine Item.fits_array_iff.mpr ?_
  simp only [List.forall_mem_cons]
  exact ⟨Item.fits_of_leaf trivial, h, Item.fits_of_leaf hpayload, Item.fits_of_leaf trivial, List.forall_mem_nil _⟩

/-- What is signed verifies under the matching public key, its payload embedded or supplied. -/
theorem verify_of_sign (hP : P.Lawful) {k : PrivateKey} {q : PublicKey} {n : NativeKey} {embed : Bool}
    (hk : k.publicKey P = .ok q) (hn : q.native P = .ok n)
    (h : Envelope.sign P k payload a header unprotectedHeader embed = .ok e) :
    e.verify P q (if embed then none else some payload) a = .ok true := by
  obtain ⟨raw, signature, -, hs, rfl⟩ := sign_eq_ok_iff.mp h
  have hp : effectivePayload ⟨header, unprotectedHeader, if embed then some payload else none, signature, raw⟩
      (if embed then none else some payload) = .ok payload := by cases embed <;> rfl
  rw [verify, hp]
  refine bind_eq_ok_iff.mpr ⟨_, rfl, bind_eq_ok_iff.mpr ⟨_, signedOctets_eq raw payload, ?_⟩⟩
  exact bind_eq_ok_iff.mpr ⟨n, hn, PrivateKey.verify_of_sign hP hk hn hs⟩

end Provenance.Envelope
