import Provenance.Proofs.Command.Verification

/-!
What a payload has to do with the answer as long as the signature is not right: two payloads are refused alike, and what
is noted meanwhile is the same.
-/
namespace Provenance

variable {P : Provider}

theorem SignedIssuerList.parseLog_of_unverified {b b' p q : Octets} {e : Envelope} (hb : Envelope.decode b = .ok e)
    (hb' : Envelope.decode b' = .ok { e with payload? := some q }) (hp : e.payload? = some p) (h : ¬ Verified P e)
    (hq : ¬ Verified P { e with payload? := some q }) : parseLog P b' = parseLog P b := by
  obtain ⟨d, hd, hd'⟩ := ofEnvelope_of_unverified hp h hq
  have hsame : claim { e with payload? := some q } = claim e := rfl
  rw [verified_iff_claim hp] at h
  rw [verified_iff_claim (show Envelope.payload? { e with payload? := some q } = some q from rfl), hsame] at hq
  simp only [parseLog, hb, hb', hp, hd, hd', hsame, Outcome.log_ok, Outcome.log_error, List.append_nil,
    Option.isNone_some, Bool.false_eq_true, if_false]
  cases hc : claim e with
  | error d => rfl
  | ok c => exact Envelope.verifySignerLog_of_payload hp (fun hv => h ⟨c, hc, hv⟩) fun hv => hq ⟨c, hc, hv⟩

namespace IssuerAuth

variable {b b' : Octets} {a a' : IssuerAuth} {q : Octets}

/-- The payload has no say in who is to have signed. -/
theorem same_signer_of_payload (h : decode b = .ok a) (h' : decode b' = .ok a')
    (he : a'.envelope = { a.envelope with payload? := some q }) :
    ∃ signer, a.chain.head? = some signer ∧ a'.chain.head? = some signer ∧ a'.algorithm = a.algorithm := by
  obtain ⟨signer, hclaim, -⟩ := exists_claim (P := .standard) h
  obtain ⟨signer', hclaim', -⟩ := exists_claim (P := .standard) h'
  have hsame : SignedIssuerList.claim a'.envelope = SignedIssuerList.claim a.envelope := by
    rw [he]
    rfl
  have hboth := hclaim
  rw [← hsame, hclaim', Except.ok.injEq, SignedIssuerList.Claim.mk.injEq] at hboth
  obtain ⟨-, halgorithm, rfl⟩ := hboth
  exact ⟨signer', (SignedIssuerList.claim_eq_ok_iff.mp hclaim).2.2, (SignedIssuerList.claim_eq_ok_iff.mp hclaim').2.2,
    halgorithm⟩

variable (h : decode b = .ok a) (h' : decode b' = .ok a')
  (he : a'.envelope = { a.envelope with payload? := some q }) (hv : a.verifySignature P ≠ .ok ())
  (hv' : a'.verifySignature P ≠ .ok ())

include h h' he hv hv'

theorem verifySignature_of_payload : ∃ d, a.verifySignature P = .error d ∧ a'.verifySignature P = .error d := by
  obtain ⟨-, payload, hread⟩ := decode_eq_ok_iff.mp h
  obtain ⟨signer, hsigner, hsigner', halgorithm⟩ := same_signer_of_payload h h' he
  rw [verifySignature_eq hsigner] at hv ⊢
  rw [verifySignature_eq hsigner', he, halgorithm] at hv' ⊢
  exact Envelope.verifySigner_of_payload hread.embedded hv hv'

theorem verifyLog_of_payload : a'.verifyLog P = a.verifyLog P := by
  obtain ⟨-, payload, hread⟩ := decode_eq_ok_iff.mp h
  obtain ⟨signer, hsigner, hsigner', halgorithm⟩ := same_signer_of_payload h h' he
  obtain ⟨d, hd, hd'⟩ := verifySignature_of_payload h h' he hv hv'
  simp only [verifyLog, hsigner, hsigner', hd, hd', Outcome.log_error, List.append_nil]
  rw [verifySignature_eq hsigner] at hv
  rw [verifySignature_eq hsigner', he, halgorithm] at hv'
  rw [he, halgorithm]
  exact Envelope.verifySignerLog_of_payload hread.embedded hv hv'

end IssuerAuth

namespace Command

variable {s : Surroundings} {path : String} {anchors? : Option AnchorFile}

namespace Report

variable {b : Octets} {d : Fault}

theorem issuerList_of_fault (hb : s.file path = .ok b) (hd : SignedIssuerList.parse P b = .error d) :
    issuerList P s path anchors? =
      anchors?.mapM (ofAnchors s) >>= fun _ => note (SignedIssuerList.parseLog P b) >>= fun _ => throw d.message := by
  rw [issuerList_eq, ofFile, hb]
  simp only [pure_bind, hd]
  rfl

theorem issuerAuth_of_fault {a : IssuerAuth} (hb : s.file path = .ok b) (ha : IssuerAuth.decode b = .ok a)
    (hd : a.verifySignature P = .error d) :
    issuerAuth P s path anchors? =
      anchors?.mapM (ofAnchors s) >>= fun _ => note (a.verifyLog P) >>= fun _ => throw d.message := by
  rw [issuerAuth_eq, ofFile, hb]
  simp only [pure_bind, ha, ofOutcome, hd]
  rfl

theorem issuerAuth_of_unread (hb : s.file path = .ok b) (hd : IssuerAuth.decode b = .error d) :
    issuerAuth P s path anchors? = anchors?.mapM (ofAnchors s) >>= fun _ => throw d.message := by
  rw [issuerAuth_eq, ofFile, hb]
  simp only [pure_bind, hd]
  rfl

end Report

/-- The second file is the envelope of the first with another payload. -/
def Substituted (s : Surroundings) (path path' : String) : Prop :=
  ∃ b b' e payload payload', s.file path = .ok b ∧ s.file path' = .ok b' ∧ Envelope.decode b = .ok e ∧
    e.payload? = some payload ∧ Envelope.decode b' = .ok { e with payload? := some payload' }

def Readable (s : Surroundings) (path : String) : Prop :=
  ∃ b a, s.file path = .ok b ∧ IssuerAuth.decode b = .ok a

variable {path' : String}

theorem issuerList_of_substituted (h : Substituted s path path') (hno : ¬ Attested P s path)
    (hno' : ¬ Attested P s path') (anchors? : Option AnchorFile) :
    Report.issuerList P s path anchors? = Report.issuerList P s path' anchors? := by
  obtain ⟨b, b', e, payload, payload', hb, hb', he, hp, he'⟩ := h
  have hv : ¬ SignedIssuerList.Verified P e := fun hv => hno ⟨b, e, hb, he, hv⟩
  have hv' : ¬ SignedIssuerList.Verified P { e with payload? := some payload' } :=
    fun hv => hno' ⟨b', _, hb', he', hv⟩
  obtain ⟨d, hd, hd'⟩ := SignedIssuerList.ofEnvelope_of_unverified hp hv hv'
  have hlist : SignedIssuerList.parse P b = .error d := by rw [SignedIssuerList.parse, he, ok_bind, hd]
  have hlist' : SignedIssuerList.parse P b' = .error d := by rw [SignedIssuerList.parse, he', ok_bind, hd']
  rw [Report.issuerList_of_fault hb hlist, Report.issuerList_of_fault hb' hlist',
    SignedIssuerList.parseLog_of_unverified he he' hp hv hv']

theorem issuerAuth_of_substituted (h : Substituted s path path') (hno : ¬ Attested P s path)
    (hno' : ¬ Attested P s path') (hread : Readable s path) (hread' : Readable s path')
    (anchors? : Option AnchorFile) :
    Report.issuerAuth P s path anchors? = Report.issuerAuth P s path' anchors? := by
  obtain ⟨b, b', e, payload, payload', hb, hb', he, hp, he'⟩ := h
  obtain ⟨_, a, hb₁, ha⟩ := hread
  obtain ⟨_, a', hb₁', ha'⟩ := hread'
  obtain rfl := Except.ok.inj (hb.symm.trans hb₁)
  obtain rfl := Except.ok.inj (hb'.symm.trans hb₁')
  obtain ⟨hae, -⟩ := IssuerAuth.decode_eq_ok_iff.mp ha
  obtain ⟨hae', -⟩ := IssuerAuth.decode_eq_ok_iff.mp ha'
  rw [he, Except.ok.injEq] at hae
  rw [he', Except.ok.injEq] at hae'
  subst hae
  have hv : a.verifySignature P ≠ .ok () := fun hv => hno ((verifySignature_iff_attested hb ha).mp hv)
  have hv' : a'.verifySignature P ≠ .ok () := fun hv => hno' ((verifySignature_iff_attested hb' ha').mp hv)
  obtain ⟨d, hd, hd'⟩ := IssuerAuth.verifySignature_of_payload ha ha' hae'.symm hv hv'
  rw [Report.issuerAuth_of_fault hb ha hd, Report.issuerAuth_of_fault hb' ha' hd',
    IssuerAuth.verifyLog_of_payload ha ha' hae'.symm hv hv']

theorem exists_fault_of_unread {b : Octets} (hb : s.file path = .ok b) (h : ¬ Readable s path) :
    ∃ d, IssuerAuth.decode b = .error d := by
  cases ha : IssuerAuth.decode b with
  | error d => exact ⟨d, rfl⟩
  | ok a => exact absurd ⟨b, a, hb, ha⟩ h

end Command

end Provenance
