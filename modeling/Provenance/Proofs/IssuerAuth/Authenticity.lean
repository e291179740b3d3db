import Provenance.IssuerAuth
import Provenance.Proofs.Envelope.RoundTrip
import Provenance.Proofs.Trust.Verdicts

/-!
Authenticity of security objects: the octets that an object was read from are those that were signed, and trust in the
chain leads from the key that signed them to an anchor.
-/
namespace Provenance.IssuerAuth

open Cbor
open Calendar (Instant)

variable {P : Provider} {a : IssuerAuth} {e : Envelope} {payload : Octets}

/-- What an issuer authentication holds was read from its envelope, the object from the payload. -/
structure ReadFrom (a : IssuerAuth) (payload : Octets) : Prop where
  embedded : a.envelope.payload? = some payload
  object : SecurityObject.decode payload = .ok a.object
  algorithm : a.envelope.algorithm? = .ok (some a.algorithm)
  certificates : ∃ ders, a.envelope.chain? = .ok (some ders) ∧ List.Forall₂ (Certificate.ofDer · = .ok ·) ders a.chain

theorem ofEnvelope_eq_ok_iff : ofEnvelope e = .ok a ↔ a.envelope = e ∧ ∃ payload, a.ReadFrom payload := by
  simp only [ofEnvelope, bind_eq_ok_iff, Envelope.algorithm_eq_ok_iff, Envelope.chain_eq_ok_iff, mapM_eq_ok_iff,
    Field.required_eq_ok_iff]
  constructor
  · rintro ⟨algorithm, ha, ders, hders, chain, hchain, payload, hp, object, ho, ⟨⟩⟩
    exact ⟨rfl, payload, hp, ho, ha, ders, hders, hchain⟩
  · rintro ⟨rfl, payload, hp, ho, ha, ders, hders, hchain⟩
    exact ⟨_, ha, ders, hders, _, hchain, payload, hp, _, ho, rfl⟩

theorem decode_eq_ok_iff {b : Octets} :
    decode b = .ok a ↔ Envelope.decode b = .ok a.envelope ∧ ∃ payload, a.ReadFrom payload := by
  simp only [decode, bind_eq_ok_iff, ofEnvelope_eq_ok_iff]
  constructor
  · rintro ⟨e, he, rfl, h⟩
    exact ⟨he, h⟩
  · rintro ⟨he, h⟩
    exact ⟨a.envelope, he, rfl, h⟩

theorem ReadFrom.chain_ne_nil (h : a.ReadFrom payload) : a.chain ≠ [] := by
  obtain ⟨ders, hders, hchain⟩ := h.certificates
  intro hnil
  rw [hnil] at hchain
  exact Envelope.chain?_ne_nil hders (List.forall₂_nil_right_iff.mp hchain)

theorem ReadFrom.read (h : a.ReadFrom payload) : ∀ c ∈ a.chain, ∃ der, Certificate.ofDer der = .ok c := by
  obtain ⟨ders, -, hchain⟩ := h.certificates
  intro c hc
  obtain ⟨der, -, hder⟩ := exists_of_mem_mapM (mapM_eq_ok_iff.mpr hchain) hc
  exact ⟨der, hder⟩

/-- The answer to whether the octets of the protected header and a payload are signed with the key of a certificate. -/
def Answers (P : Provider) (a : IssuerAuth) (payload : Octets) (signer : Certificate) (answer : Bool) : Prop :=
  ∃ k native, signer.publicKey P = .ok k ∧ k.native P = .ok native ∧
    Provenance.verify P native a.algorithm (Envelope.signedItem a.envelope.rawProtected payload).octets
      a.envelope.signature = .ok answer

theorem ReadFrom.answers_iff (h : a.ReadFrom payload) {signer : Certificate} {answer : Bool} :
    a.Answers P payload signer answer ↔
      ∃ k, signer.publicKey P = .ok k ∧ a.envelope.verify P k none a.algorithm = .ok answer := by
  simp only [Answers, Envelope.verify_embedded h.embedded, bind_eq_ok_iff, exists_and_left]

theorem verifySignature_eq {signer : Certificate} (h : a.chain.head? = some signer) :
    a.verifySignature P = a.envelope.verifySigner P a.algorithm signer "MSO" := by
  rw [verifySignature, h]
  rfl

/-- What is read was signed by the first certificate exactly if the signature is right, over the octets of the protected
header as they came and over the payload that the object is read from. If the chain is trusted as well, then signatures
lead from that certificate to one of the store. -/
theorem chain_of_custody (P : Provider) {b : Octets} (h : decode b = .ok a) :
    a.chain ≠ [] ∧ ∃ payload signer tagged, a.ReadFrom payload ∧ a.chain.head? = some signer ∧
      Cbor.decode b = .ok (a.envelope.toItem tagged) ∧
      (a.verifySignature P = .ok () ↔ a.Answers P payload signer true) ∧
      ((∃ d, a.verifySignature P = .error (.forged d)) ↔ a.Answers P payload signer false) ∧
      ∀ (p : TrustPolicy) vs t, a.verifySignature P = .ok () → (p.verify P a.chain vs t).isTrusted = true →
        a.Answers P payload signer true ∧ ∃ path root, a.chain <+: path ∧
          TrustPolicy.SignaturePath P signer root path ∧ ∃ anchor ∈ p.store.certificates,
            anchor.same root = true ∧ ((∃ der, Certificate.ofDer der = .ok anchor) → anchor = root) := by
  obtain ⟨he, payload, hread⟩ := decode_eq_ok_iff.mp h
  obtain ⟨x, hx, he⟩ := bind_eq_ok_iff.mp he
  obtain ⟨-, tagged, rfl⟩ := Envelope.ofItem_eq_ok_iff.mp he
  obtain ⟨signer, hsigner⟩ : ∃ signer, a.chain.head? = some signer :=
    ⟨_, List.head?_eq_some_head hread.chain_ne_nil⟩
  have hok : a.verifySignature P = .ok () ↔ a.Answers P payload signer true := by
    rw [verifySignature_eq hsigner, Envelope.verifySigner_eq_ok_iff, hread.answers_iff]
  refine ⟨hread.chain_ne_nil, payload, signer, tagged, hread, hsigner, hx, hok, ?_, ?_⟩
  · rw [verifySignature_eq hsigner, Envelope.verifySigner_eq_forged_iff, hread.answers_iff]
  · intro p vs t hv htrust
    exact ⟨hok.mp hv, TrustPolicy.exists_path_of_isTrusted hread.read hsigner htrust⟩

def rootSecret : Octets :=
  [0xc5, 0xaa, 0x8d, 0xf4, 0x3f, 0x9f, 0x83, 0x7b, 0xed, 0xb7, 0x44, 0x2f, 0x31, 0xdc, 0xb7, 0xb1, 0x66, 0xd3, 0x85,
   0x35, 0x07, 0x6f, 0x09, 0x4b, 0x85, 0xce, 0x3a, 0x2e, 0x0b, 0x44, 0x58, 0xf7]

def rootKey : Octets :=
  [0xfc, 0x51, 0xcd, 0x8e, 0x62, 0x18, 0xa1, 0xa3, 0x8d, 0xa4, 0x7e, 0xd0, 0x02, 0x30, 0xf0, 0x58, 0x08, 0x16, 0xed,
   0x13, 0xba, 0x33, 0x03, 0xac, 0x5d, 0xeb, 0x91, 0x15, 0x48, 0x90, 0x80, 0x25]

def signerSecret : Octets :=
  [0xf5, 0xe5, 0x76, 0x7c, 0xf1, 0x53, 0x31, 0x95, 0x17, 0x63, 0x0f, 0x22, 0x68, 0x76, 0xb8, 0x6c, 0x81, 0x60, 0xcc,
   0x58, 0x3b, 0xc0, 0x13, 0x74, 0x4c, 0x6b, 0xf2, 0x55, 0xf5, 0xcc, 0x0e, 0xe5]

def signerKey : Octets :=
  [0x27, 0x81, 0x17, 0xfc, 0x14, 0x4c, 0x72, 0x34, 0x0f, 0x67, 0xd0, 0xf2, 0x31, 0x6e, 0x83, 0x86, 0xce, 0xff, 0xbf,
   0x2b, 0x24, 0x28, 0xc9, 0xc5, 0x1f, 0xef, 0x7c, 0x59, 0x7f, 0x1d, 0x42, 0x6e]

/-- The part of a certificate that its signature is over. The root has signed itself and the signer. -/
def rootPart : Octets :=
  [0x30, 0x81, 0xa8, 0xa0, 0x03, 0x02, 0x01, 0x02, 0x02, 0x01, 0x01, 0x30, 0x05, 0x06, 0x03, 0x2b, 0x65, 0x70, 0x30,
   0x0c, 0x31, 0x0a, 0x30, 0x08, 0x06, 0x03, 0x55, 0x04, 0x03, 0x0c, 0x01, 0x52, 0x30, 0x1e, 0x17, 0x0d, 0x32, 0x30,
   0x30, 0x31, 0x30, 0x31, 0x30, 0x30, 0x30, 0x30, 0x30, 0x30, 0x5a, 0x17, 0x0d, 0x34, 0x30, 0x30, 0x31, 0x30, 0x31,
   0x30, 0x30, 0x30, 0x30, 0x30, 0x30, 0x5a, 0x30, 0x0c, 0x31, 0x0a, 0x30, 0x08, 0x06, 0x03, 0x55, 0x04, 0x03, 0x0c,
   0x01, 0x52, 0x30, 0x2a, 0x30, 0x05, 0x06, 0x03, 0x2b, 0x65, 0x70, 0x03, 0x21, 0x00] ++
    rootKey ++
  [0xa3, 0x2f, 0x30, 0x2d, 0x30, 0x0f, 0x06, 0x03, 0x55, 0x1d, 0x13, 0x01, 0x01, 0xff, 0x04, 0x05, 0x30, 0x03, 0x01,
   0x01, 0xff, 0x30, 0x0e, 0x06, 0x03, 0x55, 0x1d, 0x0f, 0x01, 0x01, 0xff, 0x04, 0x04, 0x03, 0x02, 0x02, 0x04, 0x30,
   0x0a, 0x06, 0x03, 0x55, 0x1d, 0x0e, 0x04, 0x03, 0x04, 0x01, 0x01]

def rootSignature : Octets :=
  [0x8f, 0x5a, 0x87, 0x19, 0xbc, 0xf5, 0xa9, 0xf2, 0x65, 0x52, 0xfa, 0x5f, 0xae, 0x01, 0x1c, 0xa1, 0xd7, 0xb0, 0x6d,
   0xd0, 0x2b, 0x57, 0x59, 0x5b, 0x07, 0xfa, 0xac, 0x28, 0x02, 0x81, 0xd3, 0x76, 0xf4, 0x9e, 0x0f, 0x3e, 0xce, 0x9a,
   0xd8, 0x68, 0xd3, 0xf0, 0x8b, 0x2d, 0x24, 0xff, 0x7a, 0x39, 0x8a, 0xe8, 0xf0, 0xac, 0xd5, 0x1e, 0x6f, 0xe1, 0xc5,
   0x38, 0xd0, 0x87, 0x8b, 0xf3, 0x81, 0x0f]

def signerPart : Octets :=
  [0x30, 0x81, 0x99, 0xa0, 0x03, 0x02, 0x01, 0x02, 0x02, 0x01, 0x02, 0x30, 0x05, 0x06, 0x03, 0x2b, 0x65, 0x70, 0x30,
   0x0c, 0x31, 0x0a, 0x30, 0x08, 0x06, 0x03, 0x55, 0x04, 0x03, 0x0c, 0x01, 0x52, 0x30, 0x1e, 0x17, 0x0d, 0x32, 0x30,
   0x30, 0x31, 0x30, 0x31, 0x30, 0x30, 0x30, 0x30, 0x30, 0x30, 0x5a, 0x17, 0x0d, 0x34, 0x30, 0x30, 0x31, 0x30, 0x31,
   0x30, 0x30, 0x30, 0x30, 0x30, 0x30, 0x5a, 0x30, 0x0c, 0x31, 0x0a, 0x30, 0x08, 0x06, 0x03, 0x55, 0x04, 0x03, 0x0c,
   0x01, 0x4c, 0x30, 0x2a, 0x30, 0x05, 0x06, 0x03, 0x2b, 0x65, 0x70, 0x03, 0x21, 0x00] ++
    signerKey ++
  [0xa3, 0x20, 0x30, 0x1e, 0x30, 0x0e, 0x06, 0x03, 0x55, 0x1d, 0x0f, 0x01, 0x01, 0xff, 0x04, 0x04, 0x03, 0x02, 0x07,
   0x80, 0x30, 0x0c, 0x06, 0x03, 0x55, 0x1d, 0x23, 0x04, 0x05, 0x30, 0x03, 0x80, 0x01, 0x01]

def signerSignature : Octets :=
  [0x80, 0x90, 0x08, 0x6c, 0x9c, 0xf5, 0x83, 0x56, 0x78, 0xc9, 0x3d, 0xa6, 0x93, 0xe5, 0xf0, 0x67, 0xc3, 0x73, 0x59,
   0x25, 0xff, 0x24, 0x65, 0x16, 0xb1, 0x3d, 0x10, 0x9c, 0xec, 0xf3, 0xb0, 0x8d, 0xb1, 0x1b, 0xd2, 0xe0, 0xfb, 0x67,
   0xc3, 0x03, 0x0a, 0xde, 0x87, 0x8d, 0x61, 0x1f, 0x0c, 0x28, 0x90, 0x77, 0x55, 0x4b, 0xa3, 0xb0, 0x02, 0x13, 0xfe,
   0xd9, 0xc8, 0x8c, 0x6d, 0xb2, 0x4e, 0x0e]

def certificateOf (part signature : Octets) : Octets :=
  [0x30, 0x81, .ofNat (part.length + 74)] ++ part ++ [0x30, 0x05, 0x06, 0x03, 0x2b, 0x65, 0x70, 0x03, 0x41, 0x00] ++
    signature

/-- A security object but for the name of its digest algorithm. -/
def objectOf (algorithm : String) : Item :=
  let digests : Item := .map [(.text "ns", .map [(.unsigned 0, .bytes (List.replicate 32 0))])]
  let key : Item := .map [(.label 1, .unsigned 1), (.label (-1), .unsigned 6), (.label (-2), .bytes signerKey)]
  let dated (s : String) : Item := .tag 0 (.text s)
  .map [(.text "version", .text "1.0"), (.text "digestAlgorithm", .text algorithm), (.text "docType", .text "mDL"),
    (.text "valueDigests", digests), (.text "deviceKeyInfo", .map [(.text "deviceKey", key)]),
    (.text "validityInfo", .map [(.text "signed", dated "2024-01-01T00:00:00Z"),
      (.text "validFrom", dated "2024-01-01T00:00:00Z"), (.text "validUntil", dated "2025-01-01T00:00:00Z")])]

def samplePayload : Octets := (Item.ofEncoded (objectOf "SHA-256").octets).octets

def sampleSignature : Octets :=
  [0x06, 0x29, 0xbe, 0x2b, 0x2a, 0xe6, 0xff, 0xb3, 0xc8, 0x4b, 0xe6, 0x3e, 0x15, 0xb6, 0xd1, 0x84, 0x91, 0xfe, 0x45,
   0x49, 0x37, 0x9c, 0x7b, 0xae, 0xd2, 0x90, 0xae, 0x5e, 0x81, 0xa4, 0x75, 0xd2, 0xe1, 0x25, 0xe1, 0xd2, 0x04, 0x7a,
   0xd0, 0x83, 0x67, 0xfb, 0x47, 0xcf, 0x03, 0xa1, 0xd1, 0x05, 0x90, 0xd4, 0xfc, 0x3a, 0xeb, 0x6f, 0x6c, 0x86, 0x1f,
   0xd8, 0xab, 0xc0, 0x02, 0x14, 0x85, 0x0d]

def sampleEnvelope : Envelope where
  protectedHeader := [(.label 1, .label (-8))]
  unprotectedHeader := [(.label 33, .bytes (certificateOf signerPart signerSignature))]
  payload? := some samplePayload
  signature := sampleSignature
  rawProtected := [0xa1, 0x01, 0x27]

def sampleOctets : Octets := (sampleEnvelope.toItem false).octets

def sampleProvider : Provider :=
  .recorded (fun secret => if secret = rootSecret then rootKey else signerKey)
    [⟨rootSecret, rootPart, rootSignature⟩, ⟨rootSecret, signerPart, signerSignature⟩,
      ⟨signerSecret, (Envelope.signedItem [0xa1, 0x01, 0x27] samplePayload).octets, sampleSignature⟩]

def sampleInstant : Instant := ⟨1714000000, 0, by decide⟩

/-- Whether a store that holds the root trusts the sample. -/
def sampleRun : Outcome Bool := do
  let a ← decode sampleOctets
  let root ← Certificate.ofDer (certificateOf rootPart rootSignature)
  let store ← AnchorStore.empty.add root
  a.verifySignature sampleProvider
  return (TrustPolicy.verify ⟨store, 10⟩ sampleProvider a.chain [] sampleInstant).isTrusted

theorem sampleRun_eq : sampleRun = .ok true := by
  rw [← toOption_eq_some_iff]
  decide +kernel

theorem chain_of_custody_sample :
    ∃ a root, decode sampleOctets = .ok a ∧ Certificate.ofDer (certificateOf rootPart rootSignature) = .ok root ∧
      ∃ store, AnchorStore.empty.add root = .ok store ∧ a.verifySignature sampleProvider = .ok () ∧
        (TrustPolicy.verify ⟨store, 10⟩ sampleProvider a.chain [] sampleInstant).isTrusted = true ∧
          ∃ payload signer path, a.ReadFrom payload ∧ a.Answers sampleProvider payload signer true ∧
            a.chain <+: path ∧ TrustPolicy.SignaturePath sampleProvider signer root path := by
  obtain ⟨a, ha, h⟩ := bind_eq_ok_iff.mp sampleRun_eq
  obtain ⟨root, hroot, h⟩ := bind_eq_ok_iff.mp h
  obtain ⟨store, hstore, h⟩ := bind_eq_ok_iff.mp h
  obtain ⟨hv, h⟩ := then_eq_ok_iff.mp h
  have htrust := Except.ok.inj h
  obtain ⟨-, payload, signer, -, hread, -, -, -, -, hcustody⟩ := chain_of_custody sampleProvider ha
  obtain ⟨hanswers, path, top, hpre, hpath, anchor, hanchor, -, hsame⟩ := hcustody ⟨store, 10⟩ [] sampleInstant hv htrust
  have heq : anchor = root := by
    obtain ⟨k, hk⟩ := AnchorStore.mem_certificates_iff.mp hanchor
    rw [AnchorStore.lookup_add hstore, AnchorStore.lookup_empty] at hk
    split at hk
    · exact (Option.some_inj.mp hk).symm
    · cases hk
  have htop : root = top := heq ▸ hsame ⟨_, heq ▸ hroot⟩
  exact ⟨a, root, ha, hroot, store, hstore, hv, htrust, payload, signer, path, hread, hanswers, hpre, htop ▸ hpath⟩

end Provenance.IssuerAuth
