import Provenance.Proofs.Command.Reports
import Provenance.Proofs.IssuerAuth.Authenticity
import Provenance.Proofs.IssuerList.Authenticity

/-!
What the commands report as verified: their reports end well exactly if all that was asked for turned out right, and
have no texts unless the signature has.
-/
namespace Provenance

variable {P : Provider}

namespace SignedIssuerList

theorem verified_of_parse {b : Octets} {l : SignedIssuerList} (h : parse P b = .ok l) :
    ∃ e, Envelope.decode b = .ok e ∧ Verified P e := by
  obtain ⟨e, he, h⟩ := bind_eq_ok_iff.mp h
  obtain ⟨payload, a, k, hpresents, hv, -⟩ := ofEnvelope_eq_ok_iff.mp h
  exact ⟨e, he, payload, l.chain, a, k, hpresents, hv⟩

end SignedIssuerList

namespace IssuerAuth

variable {b b' : Octets} {a a' : IssuerAuth} {q : Octets}

theorem exists_claim (h : decode b = .ok a) :
    ∃ signer, SignedIssuerList.claim a.envelope = .ok ⟨a.chain, a.algorithm, signer⟩ ∧
      a.verifySignature P = a.envelope.verifySigner P a.algorithm signer "MSO" := by
  obtain ⟨-, payload, hread⟩ := decode_eq_ok_iff.mp h
  obtain ⟨signer, hsigner⟩ : ∃ signer, a.chain.head? = some signer := ⟨_, List.head?_eq_some_head hread.chain_ne_nil⟩
  refine ⟨signer, ?_, verifySignature_eq hsigner⟩
  exact SignedIssuerList.claim_eq_ok_iff.mpr ⟨hread.certificates, hread.algorithm, hsigner⟩

theorem verifySignature_eq_ok_iff (h : decode b = .ok a) :
    a.verifySignature P = .ok () ↔ SignedIssuerList.Verified P a.envelope := by
  obtain ⟨signer, hclaim, hverify⟩ := exists_claim (P := P) h
  obtain ⟨-, payload, hread⟩ := decode_eq_ok_iff.mp h
  rw [SignedIssuerList.verified_iff_claim hread.embedded, hverify]
  simp only [hclaim, Except.ok.injEq, exists_eq_left', Envelope.verifySigner_eq_ok_iff]

end IssuerAuth

/-- Without certificates there is nothing to trust a chain for. -/
theorem TrustPolicy.isTrusted_of_empty (P : Provider) (cs : List Certificate) (vs : List Validator)
    (t : Calendar.Instant) (depth : Nat) : (TrustPolicy.verify ⟨.empty, depth⟩ P cs vs t).isTrusted = false := by
  rw [Bool.eq_false_iff]
  intro h
  obtain ⟨chain, hc, -⟩ := (fault?_eq_none_iff P cs vs t).mp ((isTrusted_iff_fault? P cs vs t).mp h)
  have hnone (c : Certificate) (hmem : c ∈ AnchorStore.empty.certificates) : False := by
    obtain ⟨k, hk⟩ := AnchorStore.mem_certificates_iff.mp hmem
    cases (AnchorStore.lookup_empty k).symm.trans hk
  obtain ⟨-, -, root, -, hroot | ⟨-, hroot⟩⟩ := exists_root_of_complete hc
  · exact hnone root hroot
  · obtain ⟨anchor, hanchor, -⟩ := AnchorStore.exists_same_of_isAnchor hroot
    exact hnone anchor hanchor

namespace Command

variable {s : Surroundings} {path : String} {anchors? : Option AnchorFile} {p : String → Prop}

/-- The file has been read as a text, and the store holds the certificates of the text and no others. -/
def AnchorFile.Loads (s : Surroundings) (f : AnchorFile) (store : AnchorStore) : Prop :=
  ∃ text, s.file f.path = .ok (Text.octets text) ∧ f.load text = (.ok (), store)

/-- The file is an envelope that its own first certificate has signed. -/
def Attested (P : Provider) (s : Surroundings) (path : String) : Prop :=
  ∃ b e, s.file path = .ok b ∧ Envelope.decode b = .ok e ∧ SignedIssuerList.Verified P e

/-- If there is a file of anchors, the chain is trusted on the strength of these and no others. -/
def Anchored (P : Provider) (s : Surroundings) (anchors? : Option AnchorFile) (chain : List Certificate) : Prop :=
  ∀ f ∈ anchors?, ∃ store, f.Loads s store ∧ (TrustPolicy.verify { store } P chain [] s.now).isTrusted = true

/-- The path and the anchors of a request to verify an issuer list are in order. -/
def ListVerified (P : Provider) (s : Surroundings) (path : String) (anchors? : Option AnchorFile) : Prop :=
  Attested P s path ∧ ∃ b l, s.file path = .ok b ∧ SignedIssuerList.parse P b = .ok l ∧
    (∀ e ∈ l.list.entries, ∃ c, Certificate.ofDer e.certificate = .ok c) ∧ Anchored P s anchors? l.chain

def AuthVerified (P : Provider) (s : Surroundings) (path : String) (anchors? : Option AnchorFile) : Prop :=
  Attested P s path ∧ ∃ b a, s.file path = .ok b ∧ IssuerAuth.decode b = .ok a ∧ Anchored P s anchors? a.chain

theorem attested_of_parse {b : Octets} {l : SignedIssuerList} (hb : s.file path = .ok b)
    (hl : SignedIssuerList.parse P b = .ok l) : Attested P s path := by
  obtain ⟨e, he, hv⟩ := SignedIssuerList.verified_of_parse hl
  exact ⟨b, e, hb, he, hv⟩

theorem verifySignature_iff_attested {b : Octets} {a : IssuerAuth} (hb : s.file path = .ok b)
    (ha : IssuerAuth.decode b = .ok a) : a.verifySignature P = .ok () ↔ Attested P s path := by
  obtain ⟨he, -⟩ := IssuerAuth.decode_eq_ok_iff.mp ha
  simp only [IssuerAuth.verifySignature_eq_ok_iff ha, Attested, hb, Except.ok.injEq, exists_and_left,
    exists_eq_left', he]

theorem AnchorFile.Loads.unique {f : AnchorFile} {store store' : AnchorStore} (h : f.Loads s store)
    (h' : f.Loads s store') : store = store' := by
  obtain ⟨text, htext, hload⟩ := h
  obtain ⟨text', htext', hload'⟩ := h'
  rw [htext, Except.ok.injEq] at htext'
  obtain rfl : text = text' :=
    Option.some.inj ((Text.ofOctets?_eq_some_iff.mpr htext').symm.trans (Text.ofOctets?_eq_some_iff.mpr rfl))
  exact (Prod.mk.inj (hload.symm.trans hload')).2

theorem not_anchored_of_empty {f : AnchorFile} {chain : List Certificate} (h : f.Loads s .empty) :
    ¬ Anchored P s (some f) chain := by
  intro hanchored
  obtain ⟨store, hstore, htrusted⟩ := hanchored f rfl
  obtain rfl := h.unique hstore
  rw [TrustPolicy.isTrusted_of_empty] at htrusted
  cases htrusted

theorem anchored_iff {chain : List Certificate} :
    Anchored P s anchors? chain ↔ ∃ store?, Option.Rel (AnchorFile.Loads s) anchors? store? ∧
      ∀ store ∈ store?, (TrustPolicy.verify { store } P chain [] s.now).isTrusted = true := by
  cases anchors? with
  | none => simp [Anchored, Option.exists]
  | some f => simp [Anchored, Option.exists]

theorem exists_stores_of_loads (h : ∀ f ∈ anchors?, ∃ store, f.Loads s store) :
    ∃ store?, Option.Rel (AnchorFile.Loads s) anchors? store? := by
  cases anchors? with
  | none => exact ⟨none, .none⟩
  | some f =>
    obtain ⟨store, hstore⟩ := h f rfl
    exact ⟨some store, .some hstore⟩

def listSuccess : String := "VICAL verification successful"

def authSuccess : String := "issuerAuth verification successful"

namespace Report

/-- The part of the report on an issuer list that comes after the signature has turned out right. -/
def ofList (P : Provider) (s : Surroundings) (store? : Option AnchorStore) (signed : SignedIssuerList) :
    Report Unit := do
  say s!"provider: {signed.list.provider} (version {signed.list.version})"
  say s!"date: {rfc3339 signed.list.date}"
  signed.list.nextUpdate?.forM fun t => say s!"next update: {rfc3339 t}"
  signed.list.issueId?.forM fun n => say s!"issue id: {n.toNat}"
  signed.list.entries.forM issuerEntry
  store?.forM (trust P s "provider" signed.chain)

theorem issuerList_eq (P : Provider) (s : Surroundings) (path : String) (anchors? : Option AnchorFile) :
    issuerList P s path anchors? = (do
      let store? ← anchors?.mapM (ofAnchors s)
      let b ← ofFile s path
      note (SignedIssuerList.parseLog P b)
      let signed ← ofOutcome (SignedIssuerList.parse P b)
      ofList P s store? signed) := rfl

def ofAuth (P : Provider) (s : Surroundings) (store? : Option AnchorStore) (a : IssuerAuth) : Report Unit := do
  say s!"docType: {a.object.docType}"
  say s!"digest algorithm: {a.object.digestAlgorithm.name}"
  say s!"valid from {rfc3339 a.object.validity.validFrom} until {rfc3339 a.object.validity.validUntil}"
  a.object.valueDigests.toList.forM fun (ns, ids) => digestIds ns ids
  store?.forM (trust P s "document signer" a.chain)

theorem issuerAuth_eq (P : Provider) (s : Surroundings) (path : String) (anchors? : Option AnchorFile) :
    issuerAuth P s path anchors? = (do
      let store? ← anchors?.mapM (ofAnchors s)
      let b ← ofFile s path
      let a ← ofOutcome (IssuerAuth.decode b)
      note (a.verifyLog P)
      ofOutcome (a.verifySignature P)
      ofAuth P s store? a) := rfl

namespace Tells

theorem ofAnchors (s : Surroundings) (f : AnchorFile) : Tells (Report.ofAnchors s f) (f.Loads s) p := by
  unfold Report.ofAnchors
  refine ((ofTextFile s f.path).bind fun text _ =>
    (note _).after fun _ => (ofOutcome _).after fun _ => result _).congr fun store => ?_
  simp [AnchorFile.Loads, Prod.ext_iff, eq_comm]

theorem ofFault? (e? : Option TrustFault) : Tells (Report.ofFault? e?) (fun _ => e? = none) p := by
  cases e? with
  | none => exact (result ()).congr fun _ => by simp
  | some e => exact (refusal _).congr fun _ => by simp

theorem trust {title : String} {chain : List Certificate} {store : AnchorStore} (htitle : p s!"{title} chain:")
    (hentry : ∀ (i : Nat) (c : Certificate), p s!"  [{i}] {c.subject}") :
    Tells (Report.trust P s title chain store)
      (fun _ => (TrustPolicy.verify { store } P chain [] s.now).isTrusted = true) p := by
  unfold Report.trust
  rw [TrustPolicy.isTrusted_iff_fault?]
  exact ((say htitle).after fun _ => (note _).after fun _ =>
    (forM (R := fun _ => True) fun e _ => say (hentry e.2 e.1)).after fun _ => ofFault? _).congr fun _ => by simp

theorem issuerEntry {e : IssuerEntry} (hp : ∀ subject docTypes : String, p s!"- {subject} [{docTypes}]") :
    Tells (Report.issuerEntry e) (fun _ => ∃ c, Certificate.ofDer e.certificate = .ok c) p :=
  ((ofOutcome _).bind fun _ _ => say (hp _ _)).congr fun _ => by simp

theorem ofList (hp : ∀ line : String, line.toList.head? ≠ some 'V' → p line) (store? : Option AnchorStore)
    (signed : SignedIssuerList) : Tells (Report.ofList P s store? signed)
      (fun _ => (∀ e ∈ signed.list.entries, ∃ c, Certificate.ofDer e.certificate = .ok c) ∧
        ∀ store ∈ store?, (TrustPolicy.verify { store } P signed.chain [] s.now).isTrusted = true) p := by
  have hentries : Tells (p := p) (signed.list.entries.forM Report.issuerEntry) fun _ => ∀ e ∈ signed.list.entries, _ :=
    forM fun e _ => issuerEntry fun subject docTypes => hp _ (by simp [toString])
  have htrust : Tells (p := p) (store?.forM (Report.trust P s "provider" signed.chain)) fun _ => ∀ store ∈ store?, _ :=
    forM? fun store _ => trust (hp _ (by simp [toString])) fun i c => hp _ (by simp [toString])
  exact ((say (hp _ (by simp [toString]))).after fun _ => (say (hp _ (by simp [toString]))).after fun _ =>
    (forM? (R := fun _ => True) fun t _ => say (hp _ (by simp [toString]))).after fun _ =>
    (forM? (R := fun _ => True) fun n _ => say (hp _ (by simp [toString]))).after fun _ =>
    hentries.after fun _ => htrust).congr fun _ => by simp

theorem digestIds {ns : String} {ids : DigestIds} (hp : ∀ front : String, p (front ++ "]")) :
    Tells (Report.digestIds ns ids) (fun _ => True) p := say (hp _)

/-- A line on digests begins with the name of a namespace, so it is told from others by how it ends. -/
theorem ofAuth (hp : ∀ line : String, line.toList.head? ≠ some 'i' → p line)
    (hdigests : ∀ front : String, p (front ++ "]")) (store? : Option AnchorStore) (a : IssuerAuth) :
    Tells (Report.ofAuth P s store? a)
      (fun _ => ∀ store ∈ store?, (TrustPolicy.verify { store } P a.chain [] s.now).isTrusted = true) p := by
  have hnamespaces : Tells (p := p) (a.object.valueDigests.toList.forM fun (ns, ids) => Report.digestIds ns ids)
      (fun _ => ∀ e ∈ a.object.valueDigests.toList, True) := forM fun e _ => digestIds hdigests
  have htrust : Tells (p := p) (store?.forM (Report.trust P s "document signer" a.chain))
      (fun _ => ∀ store ∈ store?, _) :=
    forM? fun store _ => trust (hp _ (by simp [toString])) fun i c => hp _ (by simp [toString])
  exact ((say (hp _ (by simp [toString]))).after fun _ => (say (hp _ (by simp [toString]))).after fun _ =>
    (say (hp _ (by simp [toString]))).after fun _ => hnamespaces.after fun _ => htrust).congr fun _ => by simp

theorem issuerList (P : Provider) (s : Surroundings) (path : String) (anchors? : Option AnchorFile) :
    Tells (Report.issuerList P s path anchors?) (fun _ => ListVerified P s path anchors?)
      (fun line => line ≠ listSuccess ∧ Attested P s path) := by
  have hline (line : String) (h : line.toList.head? ≠ some 'V') : line ≠ listSuccess := fun heq => h (heq ▸ rfl)
  rw [issuerList_eq]
  refine ((mapM? fun f _ => ofAnchors s f).bind fun store? _ => (ofFile s path).bind fun b hb =>
    (note _).after fun _ => (ofOutcome _).bind fun l hl =>
      ofList (fun line h => ⟨hline line h, attested_of_parse hb hl⟩) store? l).congr fun _ => ?_
  simp only [ListVerified, anchored_iff]
  constructor
  · rintro ⟨store?, hstore, b, hb, -, l, hl, hentries, htrust⟩
    exact ⟨attested_of_parse hb hl, b, l, hb, hl, hentries, store?, hstore, htrust⟩
  · rintro ⟨-, b, l, hb, hl, hentries, store?, hstore, htrust⟩
    exact ⟨store?, hstore, b, hb, trivial, l, hl, hentries, htrust⟩

theorem issuerAuth (P : Provider) (s : Surroundings) (path : String) (anchors? : Option AnchorFile) :
    Tells (Report.issuerAuth P s path anchors?) (fun _ => AuthVerified P s path anchors?)
      (fun line => line ≠ authSuccess ∧ Attested P s path) := by
  have hline (line : String) (h : line.toList.head? ≠ some 'i') : line ≠ authSuccess := fun heq => h (heq ▸ rfl)
  have hbracket (front : String) : front ++ "]" ≠ authSuccess := by
    intro h
    have hlast : (front ++ "]").toList.getLast? = authSuccess.toList.getLast? := by rw [h]
    simp [authSuccess] at hlast
  rw [issuerAuth_eq]
  refine ((mapM? fun f _ => ofAnchors s f).bind fun store? _ => (ofFile s path).bind fun b hb =>
    (ofOutcome _).bind fun a ha => (note _).after fun _ => (ofOutcome _).after fun hv =>
      ofAuth (fun line h => ⟨hline line h, (verifySignature_iff_attested hb ha).mp hv⟩)
        (fun front => ⟨hbracket front, (verifySignature_iff_attested hb ha).mp hv⟩) store? a).congr fun _ => ?_
  simp only [AuthVerified, anchored_iff]
  constructor
  · rintro ⟨store?, hstore, b, hb, a, ha, -, hv, htrust⟩
    exact ⟨(verifySignature_iff_attested hb ha).mp hv, b, a, hb, ha, store?, hstore, htrust⟩
  · rintro ⟨hv, b, a, hb, ha, store?, hstore, htrust⟩
    exact ⟨store?, hstore, b, hb, a, ha, trivial, (verifySignature_iff_attested hb ha).mpr hv, htrust⟩

end Tells

end Report

theorem not_verified_of_empty {f : AnchorFile} (h : f.Loads s .empty) :
    ¬ ListVerified P s path (some f) ∧ ¬ AuthVerified P s path (some f) := by
  constructor
  · rintro ⟨-, b, l, -, -, -, hanchored⟩
    exact not_anchored_of_empty h hanchored
  · rintro ⟨-, b, a, -, -, hanchored⟩
    exact not_anchored_of_empty h hanchored

end Command

end Provenance
