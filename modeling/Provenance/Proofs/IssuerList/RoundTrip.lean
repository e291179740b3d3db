import Provenance.Proofs.Certificate
import Provenance.Proofs.Envelope.RoundTrip
import Provenance.Proofs.IssuerList.Authenticity

/-!
Issuer lists that are signed and written are read back as they were, unless one of their dates has a year that
timestamps cannot be read with.
-/
namespace Provenance

open Cbor

namespace IssuerEntry

theorem texts_textArray (name : String) (ss : List String) : Field.texts name (textArray ss) = .ok ss :=
  Field.each_map Field.text_text 0 ss

theorem fits_textArray (ss : List String) : (textArray ss).Fits 2 :=
  Item.fits_array_of_leaves Item.text (fun _ => trivial) ss

theorem ofList_toList (s : Std.ExtTreeSet String) : .ofList s.toList = s := by
  apply Std.ExtTreeSet.ext_mem
  simp [Std.ExtTreeSet.mem_ofList]

variable {e : IssuerEntry} {x : Item}

def written (e : IssuerEntry) (c : Certificate) (ski : Octets) : Entries :=
  [(.text "certificate", .bytes e.certificate), (.text "serialNumber", .ofMagnitude (Octets.stripZeros c.serial)),
    (.text "ski", .bytes ski), (.text "docType", textArray e.docTypes.toList)] ++
    (e.profiles?.map fun ps => [(.text "certificateProfile", textArray ps)]).getD []

theorem toItem_eq_ok_iff :
    e.toItem = .ok x ↔
      ∃ c ski, Certificate.ofDer e.certificate = .ok c ∧ c.ski? = some ski ∧ x = .map (e.written c ski) := by
  simp only [toItem, bind_eq_ok_iff, Field.required_eq_ok_iff]
  constructor
  · rintro ⟨c, hc, ski, hski, ⟨⟩⟩
    exact ⟨c, ski, hc, hski, rfl⟩
  · rintro ⟨c, ski, hc, hski, rfl⟩
    exact ⟨c, hc, ski, hski, rfl⟩

theorem record_written (name : String) (c : Certificate) (ski : Octets) :
    Field.record name Draft.put {} (.map (e.written c ski)) =
      .ok ⟨some e.certificate, some e.docTypes, e.profiles?⟩ := by
  let filled (profiles? : Option (List String)) : Draft := ⟨some e.certificate, some e.docTypes, profiles?⟩
  rw [Field.record, Field.map_map, ok_bind, written, List.foldlM_append, bind_eq_ok_iff]
  refine ⟨filled none, ?_, Field.foldlM_optional e.profiles? filled ?_⟩
  · simp [Item.text?, Draft.put, texts_textArray, ofList_toList, filled]
  · intro ps _
    simp [Item.text?, Draft.put, texts_textArray, filled]

theorem ofItem_of_toItem (h : e.toItem = .ok x) (name : String) : ofItem name x = .ok e := by
  obtain ⟨c, ski, -, -, rfl⟩ := toItem_eq_ok_iff.mp h
  rw [ofItem, record_written]
  rfl

theorem fits_of_toItem (h : e.toItem = .ok x) : x.Fits 3 := by
  have leaf {y : Item} (hy : y.Leaf) : y.Fits 2 := Item.fits_of_leaf hy
  obtain ⟨c, ski, -, -, rfl⟩ := toItem_eq_ok_iff.mp h
  rw [Item.fits_map_iff]
  simp only [written, List.forall_mem_append, List.forall_mem_cons, Field.forall_mem_optional]
  refine ⟨⟨⟨leaf trivial, leaf trivial⟩, ⟨leaf trivial, Item.fits_tag_iff.mpr (Item.fits_of_leaf trivial)⟩,
    ⟨leaf trivial, leaf trivial⟩, ⟨leaf trivial, fits_textArray _⟩, List.forall_mem_nil _⟩, ?_⟩
  intro ps _
  exact ⟨leaf trivial, fits_textArray ps⟩

end IssuerEntry

namespace IssuerList

variable {l : IssuerList} {x : Item}

/-- The dates can be written so that they are read again. -/
def Dated (l : IssuerList) : Prop := l.date.FourDigitYear ∧ ∀ t ∈ l.nextUpdate?, t.FourDigitYear

def heading (l : IssuerList) : Entries :=
  [(.text "version", .text l.version), (.text "vicalProvider", .text l.provider), (.text "date", .ofInstant l.date)]

def written (l : IssuerList) (xs : List Item) : Entries :=
  l.heading ++ (l.nextUpdate?.map fun t => [(.text "nextUpdate", .ofInstant t)]).getD [] ++
    (l.issueId?.map fun n => [(.text "vicalIssueID", .unsigned n)]).getD [] ++ [(.text "certificateInfos", .array xs)]

theorem toItem_eq_ok_iff :
    l.toItem = .ok x ↔ ∃ xs, l.entries.mapM IssuerEntry.toItem = .ok xs ∧ x = .map (l.written xs) := by
  rw [toItem, bind_eq_ok_iff]
  constructor
  · rintro ⟨xs, hxs, ⟨⟩⟩
    exact ⟨xs, hxs, rfl⟩
  · rintro ⟨xs, hxs, rfl⟩
    exact ⟨xs, hxs, rfl⟩

theorem each_of_toItem {es : List IssuerEntry} {xs : List Item} (h : es.mapM IssuerEntry.toItem = .ok xs) :
    Field.each "certificateInfos" IssuerEntry.ofItem 0 xs = .ok es := by
  apply Field.each_eq_ok_of_forall₂
  apply List.Forall₂.flip
  exact (mapM_eq_ok_iff.mp h).imp fun e y hy name => IssuerEntry.ofItem_of_toItem hy name

theorem fits_of_toItem (h : l.toItem = .ok x) : x.Fits 5 := by
  have leaf {y : Item} (hy : y.Leaf) : y.Fits 4 := Item.fits_of_leaf hy
  have instant (t : Calendar.Instant) : (Item.ofInstant t).Fits 4 := Item.fits_tag_iff.mpr (Item.fits_of_leaf trivial)
  obtain ⟨xs, hxs, rfl⟩ := toItem_eq_ok_iff.mp h
  rw [Item.fits_map_iff]
  simp only [written, heading, List.forall_mem_append, List.forall_mem_cons, Field.forall_mem_optional]
  refine ⟨⟨⟨⟨⟨leaf trivial, leaf trivial⟩, ⟨leaf trivial, leaf trivial⟩, ⟨leaf trivial, instant _⟩,
    List.forall_mem_nil _⟩, ?_⟩, ?_⟩, ⟨leaf trivial, ?_⟩, List.forall_mem_nil _⟩
  · intro t _
    exact ⟨leaf trivial, instant t⟩
  · intro n _
    exact ⟨leaf trivial, leaf trivial⟩
  · rw [Item.fits_array_iff]
    intro y hy
    obtain ⟨e, -, he⟩ := exists_of_mem_mapM hxs hy
    exact IssuerEntry.fits_of_toItem he

theorem foldlM_heading (h : l.date.FourDigitYear) :
    l.heading.foldlM (fun s e => Draft.put s e.1.text? e.2) {} =
      .ok ⟨some l.version, some l.provider, some l.date, none, none, none⟩ := by
  simp [heading, Item.text?, Draft.put, Field.date_ofInstant _ h]

theorem record_written {xs : List Item} (hxs : l.entries.mapM IssuerEntry.toItem = .ok xs) (h : l.Dated) :
    Field.record "VICAL" Draft.put {} (.map (l.written xs)) =
      .ok ⟨some l.version, some l.provider, some l.date, l.nextUpdate?, l.issueId?, some l.entries⟩ := by
  let dated (t? : Option Calendar.Instant) : Draft := ⟨some l.version, some l.provider, some l.date, t?, none, none⟩
  let issued (n? : Option UInt64) : Draft := ⟨some l.version, some l.provider, some l.date, l.nextUpdate?, n?, none⟩
  rw [Field.record, Field.map_map, ok_bind, written, List.foldlM_append, List.foldlM_append, List.foldlM_append,
    foldlM_heading h.1, ok_bind]
  simp only [bind_eq_ok_iff]
  refine ⟨issued l.issueId?, ⟨dated l.nextUpdate?, Field.foldlM_optional l.nextUpdate? dated ?_,
    Field.foldlM_optional l.issueId? issued ?_⟩, ?_⟩
  · intro t ht
    simp [Item.text?, Draft.put, Field.date_ofInstant _ (h.2 t ht), dated]
  · intro n _
    simp [Item.text?, Draft.put, issued]
  · simp [Item.text?, Draft.put, each_of_toItem hxs, issued]

theorem record_written_of_not_dated (xs : List Item) (h : ¬ l.Dated) :
    ∃ d, Field.record "VICAL" Draft.put {} (.map (l.written xs)) = .error (.malformed d) := by
  rw [Field.record, Field.map_map, ok_bind, written, List.append_assoc, List.append_assoc, List.foldlM_append]
  by_cases hdate : l.date.FourDigitYear
  · obtain ⟨t, ht, hsign⟩ : ∃ t ∈ l.nextUpdate?, ¬ t.FourDigitYear := by
      by_contra hall
      push Not at hall
      exact h ⟨hdate, hall⟩
    obtain ⟨d, hd⟩ := Field.date_ofInstant_of_sign "nextUpdate" hsign
    rw [foldlM_heading hdate, Option.mem_def.mp ht]
    exact ⟨d, by simp [Item.text?, Draft.put, hd]⟩
  · obtain ⟨d, hd⟩ := Field.date_ofInstant_of_sign "date" hdate
    exact ⟨d, by simp [heading, Item.text?, Draft.put, hd]⟩

theorem ofItem_of_toItem (h : l.toItem = .ok x) (hd : l.Dated) : ofItem x = .ok l := by
  obtain ⟨xs, hxs, rfl⟩ := toItem_eq_ok_iff.mp h
  rw [ofItem, record_written hxs hd]
  rfl

theorem ofItem_of_not_dated (h : l.toItem = .ok x) (hd : ¬ l.Dated) : ∃ d, ofItem x = .error (.malformed d) := by
  obtain ⟨xs, hxs, rfl⟩ := toItem_eq_ok_iff.mp h
  obtain ⟨d, hd⟩ := record_written_of_not_dated xs hd
  exact ⟨d, bind_eq_error_iff.mpr (.inl hd)⟩

end IssuerList

namespace SignedIssuerList

variable {P : Provider} {l : SignedIssuerList} {e : Envelope} {k : PrivateKey} {a : Algorithm} {b : Octets}

theorem generate_eq_ok_iff :
    l.generate P k a = .ok b ↔ l.chain ≠ [] ∧ ∃ x payload e, l.list.toItem = .ok x ∧ Cbor.encode x = .ok payload ∧
      Envelope.sign P k payload a (Envelope.algorithmHeader a) (Envelope.chainHeader (l.chain.map Certificate.der))
        true = .ok e ∧ e.encode false = .ok b := by
  simp only [generate, sign, bind_eq_ok_iff, refuse_eq_ok_iff, List.isEmpty_iff]
  constructor
  · rintro ⟨e, ⟨hne, x, hx, payload, hp, he⟩, hb⟩
    exact ⟨hne, x, payload, e, hx, hp, he, hb⟩
  · rintro ⟨hne, x, payload, e, hx, hp, he, hb⟩
    exact ⟨e, ⟨hne, x, hx, payload, hp, he⟩, hb⟩

theorem forall₂_der (h : ∀ c ∈ l.chain, ∃ der, Certificate.ofDer der = .ok c) :
    List.Forall₂ (Certificate.ofDer · = .ok ·) (l.chain.map Certificate.der) l.chain := by
  rw [List.forall₂_map_left_iff, List.forall₂_same]
  intro c hc
  obtain ⟨der, hder⟩ := h c hc
  rwa [Certificate.der_of_ofDer hder]

/-- What is generated is read up to the payload, which is all that is left to read. -/
theorem parse_of_sign (hP : P.Lawful) {leaf : Certificate} {q : PublicKey} {payload : Octets}
    (hchain : ∀ c ∈ l.chain, ∃ der, Certificate.ofDer der = .ok c) (hleaf : l.chain.head? = some leaf)
    (hq : leaf.publicKey P = .ok q) (hk : k.publicKey P = .ok q)
    (he : Envelope.sign P k payload a (Envelope.algorithmHeader a) (Envelope.chainHeader (l.chain.map Certificate.der))
      true = .ok e) (hb : e.encode false = .ok b) (hlen : b.length < 2 ^ 64) : parse P b = accept payload l.chain := by
  obtain ⟨n, hn⟩ := Certificate.native_of_publicKey hP hq
  have hv := Envelope.verify_of_sign hP hk hn he
  obtain ⟨hheader, hunprotected, hpayload, hraw⟩ := Envelope.parts_of_sign he
  have hders : l.chain.map Certificate.der ≠ [] := by
    intro hnil
    rw [List.map_eq_nil_iff.mp hnil] at hleaf
    cases hleaf
  have hread : Envelope.readProtected e.rawProtected = .ok e.protectedHeader := by
    rw [hheader]
    apply Envelope.readProtected_of_writeProtected hraw
    · exact (Envelope.length_le_of_encode hb (.inl rfl)).trans_lt hlen
    · exact (Envelope.fits_algorithmHeader a).mono (by decide)
  have hfits : (e.toItem false).Fits 4 := by
    apply Envelope.fits_toItem
    rw [hunprotected]
    exact Envelope.fits_chainHeader _
  rw [parse, Envelope.decode_of_fits hb hlen (hfits.mono (by decide)) hread, ok_bind]
  apply ofEnvelope_of_presents _ hv
  exact ⟨hpayload, ⟨_, Envelope.chain?_of_header hunprotected hders, forall₂_der hchain⟩,
    Envelope.algorithm?_of_header hheader, leaf, hleaf, hq⟩

/-- A list that is signed with the key of its first certificate and written is read as the same list, provided that its
dates have years of four digits; with another year it is malformed. No octet string of a machine with words of 64 bits
is longer than assumed here. -/
theorem parse_of_generate (hP : P.Lawful) {leaf : Certificate} {q : PublicKey}
    (hchain : ∀ c ∈ l.chain, ∃ der, Certificate.ofDer der = .ok c) (hleaf : l.chain.head? = some leaf)
    (hq : leaf.publicKey P = .ok q) (hk : k.publicKey P = .ok q) (h : l.generate P k a = .ok b)
    (hlen : b.length < 2 ^ 64) :
    (l.list.Dated → parse P b = .ok l) ∧ (¬ l.list.Dated → ∃ d, parse P b = .error (.malformed d)) := by
  obtain ⟨-, x, payload, e, hx, hp, he, hb⟩ := generate_eq_ok_iff.mp h
  have hpayload : payload.length < 2 ^ 64 := by
    obtain ⟨-, -, hembedded, -⟩ := Envelope.parts_of_sign he
    exact (Envelope.length_le_of_encode hb (.inr hembedded)).trans_lt hlen
  have hdecode := Cbor.decode_of_fits hp hpayload ((IssuerList.fits_of_toItem hx).mono (by decide))
  rw [parse_of_sign hP hchain hleaf hq hk he hb hlen, accept, hdecode, ok_bind]
  constructor
  · intro hd
    rw [IssuerList.ofItem_of_toItem hx hd]
    rfl
  · intro hd
    obtain ⟨d, hd⟩ := IssuerList.ofItem_of_not_dated hx hd
    exact ⟨d, by rw [hd, error_bind]⟩

def sampleSecret : Octets :=
  [0x9d, 0x61, 0xb1, 0x9d, 0xef, 0xfd, 0x5a, 0x60, 0xba, 0x84, 0x4a, 0xf4, 0x92, 0xec, 0x2c, 0xc4, 0x44, 0x49, 0xc5,
   0x69, 0x7b, 0x32, 0x69, 0x19, 0x70, 0x3b, 0xac, 0x03, 0x1c, 0xae, 0x7f, 0x60]

def samplePublic : Octets :=
  [0xd7, 0x5a, 0x98, 0x01, 0x82, 0xb1, 0x0a, 0xb7, 0xd5, 0x4b, 0xfe, 0xd3, 0xc9, 0x64, 0x07, 0x3a, 0x0e, 0xe1, 0x72,
   0xf3, 0xda, 0xa6, 0x23, 0x25, 0xaf, 0x02, 0x1a, 0x68, 0xf7, 0x07, 0x51, 0x1a]

/-- A certificate of that key, signed with it. -/
def sampleCertificate : Octets :=
  [0x30, 0x81, 0xbb, 0x30, 0x6f, 0xa0, 0x03, 0x02, 0x01, 0x02, 0x02, 0x01, 0x01, 0x30, 0x05, 0x06, 0x03, 0x2b, 0x65,
   0x70, 0x30, 0x00, 0x30, 0x1e, 0x17, 0x0d, 0x32, 0x30, 0x30, 0x31, 0x30, 0x31, 0x30, 0x30, 0x30, 0x30, 0x30, 0x30,
   0x5a, 0x17, 0x0d, 0x34, 0x30, 0x30, 0x31, 0x30, 0x31, 0x30, 0x30, 0x30, 0x30, 0x30, 0x30, 0x5a, 0x30, 0x00, 0x30,
   0x2a, 0x30, 0x05, 0x06, 0x03, 0x2b, 0x65, 0x70, 0x03, 0x21, 0x00] ++
    samplePublic ++
  [0xa3, 0x0e, 0x30, 0x0c, 0x30, 0x0a, 0x06, 0x03, 0x55, 0x1d, 0x0e, 0x04, 0x03, 0x04, 0x01, 0x01, 0x30, 0x05, 0x06,
   0x03, 0x2b, 0x65, 0x70, 0x03, 0x41, 0x00, 0x14, 0x96, 0xaf, 0x7a, 0xed, 0xa2, 0x5c, 0x15, 0xa9, 0x17, 0x90, 0xa5,
   0xfb, 0x17, 0x93, 0xe8, 0x09, 0x9a, 0x15, 0xff, 0x5d, 0xcc, 0x5a, 0x5f, 0x46, 0xd2, 0x47, 0x98, 0x82, 0x82, 0x04,
   0x14, 0x7d, 0x52, 0x5b, 0x80, 0x01, 0xd2, 0x78, 0xac, 0xf4, 0x55, 0x64, 0x0a, 0x9c, 0x5c, 0xe6, 0x34, 0xad, 0x7d,
   0xaa, 0xd3, 0xfa, 0xc9, 0x2a, 0x0b, 0x45, 0xb5, 0xa4, 0x75, 0x0b, 0xf9, 0xf2, 0x09]

/-- Its date is a leap second. -/
def sampleList : IssuerList where
  provider := "P"
  date := ⟨1483228799, 1500000000, by decide⟩
  nextUpdate? := some ⟨1483228800, 0, by decide⟩
  issueId? := some 7
  entries := [⟨sampleCertificate, .ofList ["mDL"], some []⟩]

def sampleMessage : Octets :=
  (Envelope.signedItem [0xa1, 0x01, 0x27] ((sampleList.toItem >>= Cbor.encode).toOption.getD [])).octets

def sampleSignature : Octets :=
  [0xb4, 0x6a, 0xb9, 0xbb, 0x25, 0x22, 0x57, 0x9f, 0x85, 0x29, 0xdf, 0xb6, 0x29, 0xac, 0x4d, 0x0f, 0xad, 0xc0, 0x3d,
   0x55, 0xcb, 0xb5, 0x3f, 0x72, 0x48, 0xb6, 0xd9, 0x41, 0x05, 0xdf, 0xe7, 0x7b, 0xae, 0x94, 0x58, 0x0e, 0x74, 0xf6,
   0xa3, 0xe6, 0x5c, 0x14, 0xc6, 0xe8, 0x16, 0x91, 0x51, 0x1b, 0x15, 0x7e, 0x84, 0x2d, 0x06, 0xb2, 0x7a, 0xbf, 0x10,
   0xa2, 0x23, 0x6f, 0x85, 0x64, 0x4c, 0x08]

/-- Primitives for one key of EdDSA, of which they know the signature of one message. -/
def samplePrimitives : Primitives where
  digest _ _ := []
  onCurve _ _ _ := false
  lift _ _ _ := none
  pointOf _ _ := (0, 0)
  octetsOf c b := if c = .ed25519 ∧ b = sampleSecret then samplePublic else []
  ecdsaSign _ _ _ _ := none
  ecdsaVerify _ _ _ _ _ _ _ := none
  eddsaSign e b m := if e = .ed25519 ∧ b = sampleSecret ∧ m = sampleMessage then sampleSignature else []
  eddsaVerify _ key m s := some (s = [] ∨ key = samplePublic ∧ m = sampleMessage ∧ s = sampleSignature)
  rsaVerify _ _ _ _ := false

def sampleProvider : Provider := samplePrimitives.provider

theorem lawful_sampleProvider : sampleProvider.Lawful where
  ecdsa h := nomatch h
  eddsa := by
    intro c e b m hc
    by_cases h : e = .ed25519 ∧ b = sampleSecret ∧ m = sampleMessage
    · obtain ⟨rfl, rfl, rfl⟩ := h
      cases c <;> cases hc
      simp [sampleProvider, Primitives.provider, samplePrimitives]
    · simp [sampleProvider, Primitives.provider, samplePrimitives, h]
  certified := SubjectKey.onCurve_of_native?

/-- The key of the certificate, and how long the signed list is. -/
def sampleRun : Outcome (PublicKey × Nat) := do
  let c ← Certificate.ofDer sampleCertificate
  let q ← c.publicKey sampleProvider
  let b ← generate sampleProvider ⟨sampleList, [c]⟩ (.secret .ed25519 sampleSecret) .eddsa
  return (q, b.length)

theorem sampleRun_eq : sampleRun = .ok (.single .ed25519 samplePublic, 655) := by
  rw [← toOption_eq_some_iff]
  decide +kernel

theorem parse_of_generate_sample :
    ∃ c b, Certificate.ofDer sampleCertificate = .ok c ∧
      generate sampleProvider ⟨sampleList, [c]⟩ (.secret .ed25519 sampleSecret) .eddsa = .ok b ∧
        parse sampleProvider b = .ok ⟨sampleList, [c]⟩ := by
  obtain ⟨c, hc, h⟩ := bind_eq_ok_iff.mp sampleRun_eq
  obtain ⟨q, hq, h⟩ := bind_eq_ok_iff.mp h
  obtain ⟨b, hb, h⟩ := bind_eq_ok_iff.mp h
  obtain ⟨rfl, hlen⟩ : q = .single .ed25519 samplePublic ∧ b.length = 655 := by simpa [pure, Except.pure] using h
  have hchain : ∀ d ∈ [c], ∃ der, Certificate.ofDer der = .ok d := by
    rw [List.forall_mem_singleton]
    exact ⟨sampleCertificate, hc⟩
  have hoctets : sampleProvider.octetsOf .ed25519 sampleSecret = samplePublic := by
    simp [sampleProvider, Primitives.provider, samplePrimitives]
  have hkey : PrivateKey.publicKey sampleProvider (.secret .ed25519 sampleSecret) =
      .ok (.single .ed25519 samplePublic) := by
    rw [PrivateKey.publicKey, PrivateKey.native, hoctets, PublicKey.ofNative]
    exact PublicKey.okp_eq_ok_iff.mpr ⟨rfl, rfl, rfl⟩
  have hdated : sampleList.Dated := ⟨by decide +kernel, by rintro t ⟨⟩; decide +kernel⟩
  exact ⟨c, b, hc, hb, (parse_of_generate lawful_sampleProvider hchain rfl hq hkey hb (by rw [hlen]; decide)).1 hdated⟩

end SignedIssuerList

end Provenance
