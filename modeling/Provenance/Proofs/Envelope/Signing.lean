import Provenance.Proofs.Envelope.RoundTrip

/-!
From signing to verification: an envelope that was just made verifies, and so does the one that is read from its octets,
which is the same.
-/
namespace Provenance.Envelope

open Cbor
open Item (StandsAt)

variable {P : Provider} {e : Envelope} {a : Algorithm} {header unprotectedHeader : Entries} {payload : Octets}

/-- Both forms of the protected header survive being written and read, the empty one without any octets included. -/
theorem decode_of_sign {k : PrivateKey} {embed tagged : Bool} {b : Octets}
    (h : Envelope.sign P k payload a header unprotectedHeader embed = .ok e) (hb : e.encode tagged = .ok b)
    (hlen : b.length < 2 ^ 64) (hheader : (Item.map e.protectedHeader).Fits (maxNesting + 1))
    (hfits : (e.toItem tagged).Fits (maxNesting + 1)) : decode b = .ok e := by
  obtain ⟨hprotected, -, -, hraw⟩ := parts_of_sign h
  have hrawLen : e.rawProtected.length < 2 ^ 64 := (length_le_of_encode hb (.inl rfl)).trans_lt hlen
  rw [← hprotected] at hraw
  exact decode_of_fits hb hlen hfits (readProtected_of_writeProtected hraw hrawLen hheader)

/-- What is signed verifies under the public half of the key, if that can be used: as it was made, its payload embedded
or supplied, and as it is read from its octets, provided that these do not nest too deeply to be read. No octet string
of a machine with words of 64 bits is longer than assumed here. -/
theorem signed_round_trip (hP : P.Lawful) {k : PrivateKey} {q : PublicKey} {n : NativeKey} {embed : Bool}
    (hk : k.publicKey P = .ok q) (hn : q.native P = .ok n)
    (h : Envelope.sign P k payload a header unprotectedHeader embed = .ok e) :
    let detached? := if embed then none else some payload
    e.verify P q detached? a = .ok true ∧
      ∀ tagged b, e.encode tagged = .ok b → b.length < 2 ^ 64 →
        (∀ y level, StandsAt y level (.map e.protectedHeader) → level ≤ maxNesting) →
        (∀ y level, StandsAt y level (e.toItem tagged) → level ≤ maxNesting) →
        ∃ f, decode b = .ok f ∧ f = e ∧ f.verify P q detached? a = .ok true := by
  intro detached?
  have hv : e.verify P q detached? a = .ok true := verify_of_sign hP hk hn h
  refine ⟨hv, ?_⟩
  intro tagged b hb hlen hheader hitem
  have hdecode := decode_of_sign h hb hlen (Item.fits_iff_le.mpr hheader) (Item.fits_iff_le.mpr hitem)
  exact ⟨e, hdecode, rfl, hv⟩

def sampleSecret : Octets :=
  [0x4c, 0xcd, 0x08, 0x9b, 0x28, 0xff, 0x96, 0xda, 0x9d, 0xb6, 0xc3, 0x46, 0xec, 0x11, 0x4e, 0x0f, 0x5b, 0x8a, 0x31,
   0x9f, 0x35, 0xab, 0xa6, 0x24, 0xda, 0x8c, 0xf6, 0xed, 0x4f, 0xb8, 0xa6, 0xfb]

def samplePublic : Octets :=
  [0x3d, 0x40, 0x17, 0xc3, 0xe8, 0x43, 0x89, 0x5a, 0x92, 0xb7, 0x0a, 0xa7, 0x4d, 0x1b, 0x7e, 0xbc, 0x9c, 0x98, 0x2c,
   0xcf, 0x2e, 0xc4, 0x96, 0x8c, 0xc0, 0xcd, 0x55, 0xf1, 0x2a, 0xf4, 0x66, 0x0c]

/-- It holds a NaN and a map with a key that is no label. -/
def sampleHeader : Entries :=
  [(.label 1, .label (-8)), (.text "aux", .array [.float 0x7ff8000000000001, .map [(.null, .bool true)]])]

def sampleUnprotected : Entries := [(.label 33, .bytes [1, 2, 3])]

def sampleSignature : Octets :=
  [0x9c, 0xb3, 0x07, 0xe1, 0x8d, 0x8f, 0x50, 0x90, 0xa8, 0x28, 0x0a, 0xb6, 0x09, 0xcc, 0xec, 0x81, 0x91, 0xc4, 0x14,
   0x9f, 0x76, 0x24, 0x6d, 0x4a, 0xfd, 0xfe, 0xa6, 0xf6, 0xad, 0xd3, 0xb3, 0x99, 0x1e, 0xa2, 0xf0, 0x40, 0xb6, 0xd9,
   0x62, 0xcb, 0x0a, 0x0a, 0x76, 0xba, 0x12, 0xb5, 0x4c, 0x33, 0x14, 0x4c, 0xe9, 0xb9, 0xc5, 0xe4, 0x33, 0x2d, 0xce,
   0x98, 0x64, 0x83, 0xf1, 0x71, 0x34, 0x01]

def sampleProvider : Provider :=
  .recorded (fun secret => if secret = sampleSecret then samplePublic else [])
    [⟨sampleSecret, (signedItem (Item.map sampleHeader).octets [0x68, 0x69]).octets, sampleSignature⟩]

def sampleEnvelope : Envelope where
  protectedHeader := sampleHeader
  unprotectedHeader := sampleUnprotected
  payload? := none
  signature := sampleSignature
  rawProtected := (Item.map sampleHeader).octets

theorem fits_sampleHeader : (Item.map sampleHeader).Fits 5 := by
  have leaf {x : Item} {limit : Nat} (hx : x.Leaf) : x.Fits (limit + 1) := Item.fits_of_leaf hx
  simp only [sampleHeader, Item.fits_map_iff, Item.fits_array_iff, List.forall_mem_cons]
  exact ⟨⟨leaf (leaf_label 1), leaf (leaf_label (-8))⟩,
    ⟨leaf trivial, leaf trivial, ⟨⟨leaf trivial, leaf trivial⟩, nofun⟩, nofun⟩, nofun⟩

theorem fits_sampleEnvelope : (sampleEnvelope.toItem true).Fits 4 := by
  have leaf {x : Item} {limit : Nat} (hx : x.Leaf) : x.Fits (limit + 1) := Item.fits_of_leaf hx
  refine Item.fits_tag_iff.mpr (fits_toItem ?_)
  simp only [sampleEnvelope, sampleUnprotected, Item.fits_map_iff, List.forall_mem_cons]
  exact ⟨⟨leaf (leaf_label 33), leaf trivial⟩, nofun⟩

theorem sign_sample :
    Envelope.sign sampleProvider (.secret .ed25519 sampleSecret) [0x68, 0x69] .eddsa sampleHeader sampleUnprotected
      false = .ok sampleEnvelope := by
  refine sign_eq_ok_iff.mpr ⟨_, _, rfl, ?_, rfl⟩
  simp [Provenance.sign, Algorithm.digest?, Curve.scheme?, sampleProvider]

theorem signed_round_trip_sample :
    let payload : Octets := [0x68, 0x69]
    let key : PublicKey := .single .ed25519 samplePublic
    Envelope.sign sampleProvider (.secret .ed25519 sampleSecret) payload .eddsa sampleHeader sampleUnprotected false =
        .ok sampleEnvelope ∧
      sampleEnvelope.verify sampleProvider key (some payload) .eddsa = .ok true ∧
      ∃ b f, sampleEnvelope.encode true = .ok b ∧ decode b = .ok f ∧ f = sampleEnvelope ∧
        f.verify sampleProvider key (some payload) .eddsa = .ok true := by
  intro payload key
  have hkey : PrivateKey.publicKey sampleProvider (.secret .ed25519 sampleSecret) = .ok key := by
    have hoctets : sampleProvider.octetsOf .ed25519 sampleSecret = samplePublic := by simp [sampleProvider]
    rw [PrivateKey.publicKey, PrivateKey.native, hoctets, PublicKey.ofNative]
    exact PublicKey.okp_eq_ok_iff.mpr ⟨rfl, rfl, rfl⟩
  have hnative : key.native sampleProvider = .ok (.octets .ed25519 samplePublic) := rfl
  obtain ⟨hv, hread⟩ := signed_round_trip (lawful_recorded _ _) hkey hnative sign_sample
  obtain ⟨b, hb⟩ : ∃ b, sampleEnvelope.encode true = .ok b := ⟨_, rfl⟩
  have hlen : b.length < 2 ^ 64 := by
    cases hb
    decide
  obtain ⟨f, hf, hsame, hv'⟩ := hread true b hb hlen (Item.fits_iff_le.mp (fits_sampleHeader.mono (by decide)))
    (Item.fits_iff_le.mp (fits_sampleEnvelope.mono (by decide)))
  exact ⟨sign_sample, hv, b, f, hb, hf, hsame, hv'⟩

end Provenance.Envelope
