import Provenance.Proofs.Command.Payloads
import Provenance.Proofs.Command.Streams

/-!
Answers to requests: they tell of success exactly if all that was asked for turned out right, and before the signature
has turned out right they tell nothing of what is signed but why it cannot be read.
-/
namespace Provenance.Command

variable {P : Provider} {s : Surroundings} {path : String}

section Substitution

variable {b : Octets} {d : Fault} (verbose : Bool) (anchors? : Option AnchorFile)

theorem printed_issuerAuth_of_substituted {path' : String} (h : Substituted s path path') (hno : ¬ Attested P s path)
    (hno' : ¬ Attested P s path') (hiff : Readable s path ↔ Readable s path') :
    (Request.answer P s ⟨.issuerAuth path anchors?, verbose⟩).printed =
      (Request.answer P s ⟨.issuerAuth path' anchors?, verbose⟩).printed := by
  simp only [Request.answer]
  -- Of an object that cannot be read nothing is noted or said, so only the reason can differ.
  by_cases hread : Readable s path
  · rw [issuerAuth_of_substituted h hno hno' hread (hiff.mp hread) anchors?]
  · obtain ⟨b, b', -, -, -, hb, hb', -⟩ := h
    obtain ⟨d, hd⟩ := exists_fault_of_unread hb hread
    obtain ⟨d', hd'⟩ := exists_fault_of_unread hb' (hiff.not.mp hread)
    rw [Report.issuerAuth_of_unread hb hd, Report.issuerAuth_of_unread hb' hd']
    exact Output.printed_ofReport_refusal _ _ _ _ _ _

theorem err_issuerAuth_of_unread (hb : s.file path = .ok b) (hd : IssuerAuth.decode b = .error d)
    (hloads : ∀ f ∈ anchors?, ∃ store, f.Loads s store) :
    (Request.answer P s ⟨.issuerAuth path anchors?, verbose⟩).err =
      [s!"issuerAuth verification failed: {d.message}"] := by
  obtain ⟨store?, hstore⟩ := exists_stores_of_loads hloads
  have hanchors : Report.Tells (anchors?.mapM (Report.ofAnchors s)) (Option.Rel (AnchorFile.Loads s) anchors?)
      (fun _ => True) := Report.Tells.mapM? fun f _ => Report.Tells.ofAnchors s f
  simp only [Request.answer, Report.issuerAuth_of_unread hb hd]
  exact Output.err_ofReport_refusal _ _ _ _ _ hanchors hstore

end Substitution

/-- The commands tell of success exactly if the envelope is signed by its own first certificate, all that it holds can
be read and the file of anchors, if one is given, can be loaded and leads to trust, which one without certificates never
does. Under a signature that is not right, the payload is without influence on the answer about an issuer list, log
entries included. A security object is read before the signature is compared: one that cannot be read is refused for
that reason, which may quote it, and only whether it can be read has influence on the rest. -/
theorem success_iff_verified (P : Provider) (s : Surroundings) (verbose : Bool) (path : String)
    (anchors? : Option AnchorFile) :
    let answer (task : Task) : Output := Request.answer P s ⟨task, verbose⟩
    (answer (.issuerList path anchors?)).Reports listSuccess "VICAL verification failed"
        (ListVerified P s path anchors?) (Attested P s path) ∧
      (answer (.issuerAuth path anchors?)).Reports authSuccess "issuerAuth verification failed"
        (AuthVerified P s path anchors?) (Attested P s path) ∧
      (∀ f ∈ anchors?, f.Loads s .empty → ¬ ListVerified P s path anchors? ∧ ¬ AuthVerified P s path anchors?) ∧
      (∀ path', Substituted s path path' → ¬ Attested P s path → ¬ Attested P s path' →
        answer (.issuerList path anchors?) = answer (.issuerList path' anchors?) ∧
          (Readable s path → Readable s path' →
            answer (.issuerAuth path anchors?) = answer (.issuerAuth path' anchors?)) ∧
          ((Readable s path ↔ Readable s path') →
            (answer (.issuerAuth path anchors?)).printed = (answer (.issuerAuth path' anchors?)).printed)) ∧
      ∀ b d, s.file path = .ok b → IssuerAuth.decode b = .error d → (∀ f ∈ anchors?, ∃ store, f.Loads s store) →
        (answer (.issuerAuth path anchors?)).err = [s!"issuerAuth verification failed: {d.message}"] := by
  intro answer
  refine ⟨?_, ?_, ?_, ?_, ?_⟩
  · exact Output.reports_ofReport (by decide) (Report.Tells.issuerList P s path anchors?) And.left verbose
  · exact Output.reports_ofReport (by decide) (Report.Tells.issuerAuth P s path anchors?) And.left verbose
  · rintro f rfl hempty
    exact not_verified_of_empty hempty
  · intro path' h hno hno'
    refine ⟨?_, ?_, printed_issuerAuth_of_substituted verbose anchors? h hno hno'⟩
    · simp only [answer, Request.answer, issuerList_of_substituted h hno hno' anchors?]
    · intro hread hread'
      simp only [answer, Request.answer, issuerAuth_of_substituted h hno hno' hread hread' anchors?]
  · intro b d hb hd hloads
    exact err_issuerAuth_of_unread verbose anchors? hb hd hloads

theorem verifySigner_of_attested {b : Octets} (hb : s.file path = .ok b) (h : Attested P s path) :
    (do
      let e ← Envelope.decode b
      let c ← SignedIssuerList.claim e
      e.verifySigner P c.algorithm c.leaf "VICAL") = .ok () := by
  obtain ⟨_, e, hb', he, hv⟩ := h
  obtain rfl := Except.ok.inj (hb.symm.trans hb')
  have ⟨_, _, _, _, hpresents, _⟩ := hv
  obtain ⟨c, hc, hsigner⟩ := (SignedIssuerList.verified_iff_claim hpresents.payload).mp hv
  rw [he, ok_bind, hc, ok_bind, hsigner]

def misleadingList : IssuerList where
  provider := "P\nVICAL verification successful\nQ"
  date := ⟨1714521600, 0, by decide⟩
  entries := []

def misleadingPayload : Octets := ((misleadingList.toItem >>= Cbor.encode).toOption.getD [])

def misleadingSignature : Octets :=
  [0x0f, 0x83, 0x5e, 0x02, 0x6f, 0x41, 0xc1, 0x13, 0xd9, 0x75, 0xf6, 0x72, 0x1b, 0x85, 0xfe, 0x4e, 0x71, 0x41, 0xaf,
   0x06, 0xa2, 0x14, 0xa2, 0x99, 0xd3, 0x64, 0x68, 0x3f, 0x48, 0x1a, 0x56, 0xd0, 0x40, 0xaa, 0xfc, 0x24, 0xf1, 0x24,
   0x1b, 0x11, 0x49, 0x46, 0x3c, 0x7c, 0x7b, 0xc6, 0x8b, 0xd3, 0x9f, 0x50, 0xce, 0x4f, 0xf7, 0x89, 0xf6, 0xce, 0xcf,
   0x14, 0x70, 0xab, 0xd7, 0xe1, 0x5c, 0x01]

/-- The list is signed; the security object, whose digest algorithm is unknown, is not. -/
def sampleFiles : List (String × Octets) :=
  let list : Envelope :=
    { IssuerAuth.sampleEnvelope with payload? := some misleadingPayload, signature := misleadingSignature }
  let object : Envelope :=
    { IssuerAuth.sampleEnvelope with
      payload? := some (Cbor.Item.ofEncoded (IssuerAuth.objectOf "CRC-32").octets).octets
      signature := List.replicate 64 0 }
  [("list.cbor", (list.toItem false).octets), ("auth.cbor", (object.toItem false).octets), ("roots.pem", [])]

def sampleSurroundings : Surroundings where
  now := IssuerAuth.sampleInstant
  file path := ((sampleFiles.lookup path).map pure).getD (throw "not found")

def sampleProvider : Provider :=
  .recorded (fun _ => IssuerAuth.signerKey)
    [⟨IssuerAuth.signerSecret, (Envelope.signedItem [0xa1, 0x01, 0x27] misleadingPayload).octets, misleadingSignature⟩]

/-- A provider's name may bring the line of success with it, and a digest algorithm is quoted that nobody has signed. -/
theorem success_shown_unverified :
    let list : Request := ⟨.issuerList "list.cbor" (some (.bundle "roots.pem")), false⟩
    let object : Request := ⟨.issuerAuth "auth.cbor" none, false⟩
    ((list.answer sampleProvider sampleSurroundings).Shows .levels listSuccess ∧
        ¬ ListVerified sampleProvider sampleSurroundings "list.cbor" (some (.bundle "roots.pem"))) ∧
      (object.answer sampleProvider sampleSurroundings).err =
          ["issuerAuth verification failed: Unsupported: digest algorithm CRC-32"] ∧
        ¬ Attested sampleProvider sampleSurroundings "auth.cbor" := by
  intro list object
  refine ⟨⟨?_, ?_⟩, ?_, ?_⟩
  · unfold Output.Shows
    decide +kernel
  · have hloads : AnchorFile.Loads sampleSurroundings (.bundle "roots.pem") .empty := ⟨"", rfl, rfl⟩
    exact (not_verified_of_empty hloads).1
  · decide +kernel
  · intro h
    have hsigner := toOption_eq_some_iff.mpr (verifySigner_of_attested rfl h)
    revert hsigner
    decide +kernel

end Provenance.Command
