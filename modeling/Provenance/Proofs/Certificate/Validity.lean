import Provenance.Certificate.Basic
import Provenance.Proofs.Asn1.TimeRoundTrip
import Provenance.Proofs.Calendar.Order

/-!
When a certificate is valid: that an instant is written as a text and read again before it is compared makes no
difference to whole seconds, so that the instants at which a certificate is valid are one interval.
-/
namespace Provenance

open Calendar (Instant)

section Scans

variable {α β : Type} {p : Asn1.Scan α} {f : α → Asn1.Scan β} {q : α → Prop} {q' : β → Prop}

/-- Whatever the scan reads has the property. -/
def Asn1.Scan.Yields (p : Asn1.Scan α) (q : α → Prop) : Prop := ∀ b a r, p b = some (a, r) → q a

namespace Asn1.Scan.Yields

theorem trivially (p : Asn1.Scan α) : p.Yields fun _ => True := fun _ _ _ _ => trivial

theorem pure {a : α} (h : q a) : (Pure.pure a : Asn1.Scan α).Yields q := by
  rintro b a' r ⟨⟩
  exact h

theorem bind (hp : p.Yields q) (hf : ∀ a, q a → (f a).Yields q') : (p >>= f).Yields q' := by
  intro b a r h
  obtain ⟨⟨a', r'⟩, ha, h⟩ := Option.bind_eq_some_iff.mp h
  exact hf a' (hp b a' r' ha) r' a r h

theorem after (hf : ∀ a, (f a).Yields q') : (p >>= f).Yields q' := (trivially p).bind fun a _ => hf a

theorem inside {e : Asn1.Element} (hp : p.Yields q) : (Asn1.Scan.inside e p).Yields q := by
  intro b a r h
  obtain ⟨⟨a', r'⟩, ha, heq⟩ := Option.map_eq_some_iff.mp h
  cases heq
  exact hp _ _ _ ha

theorem sequence (hp : p.Yields q) : (Asn1.Scan.sequence p).Yields q := after fun _ => inside hp

end Asn1.Scan.Yields

end Scans

theorem Asn1.Time.fourDigitYear_of_decode {f : TimeFormat} {s : String} {t : Instant} (h : decode f s = .ok t) :
    t.FourDigitYear := by
  obtain ⟨c, ⟨⟨year, clock, fraction, -, hyear, -⟩, hvalid⟩, hsecs⟩ := decode_eq_ok_iff.mp h
  have hcivil := Instant.civil_eq hvalid hsecs
  rw [Instant.FourDigitYear, Instant.year, hcivil]
  exact hyear.fourDigits

/-- Bounds that can be written in a certificate. -/
def SignedPart.Dated (p : SignedPart) : Prop := p.notBefore.FourDigitYear ∧ p.notAfter.FourDigitYear

namespace SignedPart

theorem fourDigitYear_of_instant? {e : Asn1.Element} {t : Instant} (h : instant? e = some t) : t.FourDigitYear := by
  have hread (f : Asn1.TimeFormat)
      (h : (Text.ofOctets? e.content).bind (fun s => (Asn1.Time.decode f s).toOption) = some t) : t.FourDigitYear := by
    obtain ⟨s, -, hs⟩ := Option.bind_eq_some_iff.mp h
    exact Asn1.Time.fourDigitYear_of_decode (toOption_eq_some_iff.mp hs)
  unfold instant? at h
  split at h
  · exact hread .utc h
  split at h
  · exact hread .generalized h
  · cases h

theorem yields_instant : instant.Yields Instant.FourDigitYear := by
  refine .after fun e => ?_
  intro b t r h
  obtain ⟨t', ht, heq⟩ := Option.map_eq_some_iff.mp h
  cases heq
  exact fourDigitYear_of_instant? ht

theorem yields_validity : validity.Yields fun p => p.1.FourDigitYear ∧ p.2.FourDigitYear :=
  .sequence (yields_instant.bind fun _ hfrom => yields_instant.bind fun _ hto => .pure ⟨hfrom, hto⟩)

theorem yields_scan : scan.Yields Dated := by
  refine .after fun e => .inside ?_
  refine .after fun _ => .after fun serial => .after fun algorithm => .after fun issuer => ?_
  refine yields_validity.bind fun period hperiod => ?_
  refine .after fun subject => .after fun key => .after fun _ => .after fun _ => .after fun extensions => ?_
  exact .pure hperiod

end SignedPart

theorem Layout.yields_scan : Layout.scan.Yields fun l => l.part.Dated := by
  refine .sequence (SignedPart.yields_scan.bind fun part hpart => ?_)
  exact .after fun algorithm => .after fun signature => .pure hpart

namespace Certificate

variable {b : Octets} {c : Certificate} {t : Instant}

theorem dated_of_ofDer (h : ofDer b = .ok c) : c.layout.part.Dated := by
  unfold ofDer at h
  split at h
  · cases h
  · next l rest hl =>
    split at h
    · cases h
    split at h
    · cases h
      exact Layout.yields_scan b l rest hl
    · cases h

/-- The instants at which the certificate is valid. -/
def validity (c : Certificate) : Set Instant := {t | c.isValidAt t = .ok true}

theorem isValidAt_eq (h : t.FourDigitYear) :
    c.isValidAt t = .ok (decide (c.notBefore.secs ≤ t.secs ∧ t.secs ≤ c.notAfter.secs)) := by
  have hs := Asn1.Time.encode_eq_ok_iff.mpr ⟨show Asn1.TimeFormat.generalized.covers t.wholeSecond.year = true from
    decide_eq_true h, rfl⟩
  obtain ⟨now, hnow, hsecs, -⟩ := Asn1.Time.decode_of_encode hs
  have hwhole : now.secs = t.secs := hsecs
  rw [isValidAt, hs, ok_bind, hnow, ok_bind, hwhole]
  rfl

theorem isValidAt_of_year (h : ¬ t.FourDigitYear) : c.isValidAt t =
    .error (.unsupported s!"year {t.year} cannot be expressed as {Asn1.TimeFormat.generalized.name}") := by
  have hs : ¬ Asn1.TimeFormat.generalized.covers t.wholeSecond.year = true := fun hcovers =>
    h (of_decide_eq_true hcovers)
  rw [isValidAt, Asn1.Time.encode, if_neg hs, error_bind]
  rfl

theorem mem_validity_iff : t ∈ c.validity ↔ t.FourDigitYear ∧ c.notBefore.secs ≤ t.secs ∧ t.secs ≤ c.notAfter.secs := by
  by_cases hyear : t.FourDigitYear
  · simp [validity, isValidAt_eq hyear, hyear]
  · simp [validity, isValidAt_of_year hyear, hyear]

theorem validity_eq (h : c.layout.part.Dated) (hfrom : c.notBefore.nanos = 0) :
    c.validity = Set.Icc c.notBefore c.notAfter.endOfSecond := by
  ext t
  rw [mem_validity_iff, Set.mem_Icc, Instant.le_iff_of_nanos_eq_zero hfrom, Instant.le_endOfSecond_iff]
  constructor
  · exact And.right
  · rintro ⟨hle, hge⟩
    have hend : c.notAfter.endOfSecond.FourDigitYear := h.2
    have hfirst := (Instant.le_iff_of_nanos_eq_zero hfrom).mpr hle
    exact ⟨Instant.fourDigitYear_of_le h.1 hend hfirst (Instant.le_endOfSecond_iff.mpr hge), hle, hge⟩

/-- A certificate is valid at an instant if the second that the instant falls on is within the bounds, and an instant
that has no text gets no answer. So validity begins with the lower bound and ends with the second of the upper one. -/
theorem validity_interval (h : ofDer b = .ok c) (hfrom : c.notBefore.nanos = 0) (hto : c.notAfter.nanos = 0) :
    (∀ t : Instant, IsGreatest {u | u.nanos = 0 ∧ u ≤ t} t.wholeSecond) ∧
      (∀ t, t.FourDigitYear → c.isValidAt t =
        .ok (decide (c.notBefore ≤ t.wholeSecond ∧ t.wholeSecond ≤ c.notAfter))) ∧
      (∀ t, ¬ t.FourDigitYear → c.isValidAt t =
        .error (.unsupported s!"year {t.year} cannot be expressed as {Asn1.TimeFormat.generalized.name}")) ∧
      c.validity = Set.Icc c.notBefore c.notAfter.endOfSecond ∧
      IsGreatest {t | t.wholeSecond = c.notAfter} c.notAfter.endOfSecond ∧
      (c.notBefore ≤ c.notAfter →
        IsLeast c.validity c.notBefore ∧ ∀ t, t.wholeSecond = c.notAfter → t ∈ c.validity) := by
  have hdated := dated_of_ofDer h
  have hlast := Instant.isGreatest_endOfSecond hto
  refine ⟨Instant.isGreatest_wholeSecond, ?_, fun t => isValidAt_of_year, validity_eq hdated hfrom, hlast, ?_⟩
  · intro t hyear
    simp only [isValidAt_eq hyear, Instant.le_wholeSecond_iff hfrom, Instant.wholeSecond_le_iff]
  · intro hle
    rw [validity_eq hdated hfrom]
    refine ⟨isLeast_Icc (hle.trans (Instant.le_endOfSecond_iff.mpr le_rfl)), ?_⟩
    intro t ht
    have hsecs : t.wholeSecond.secs = c.notAfter.secs := by rw [ht]
    rw [Set.mem_Icc, Instant.le_iff_of_nanos_eq_zero hfrom, Instant.le_endOfSecond_iff, ← hsecs]
    exact ⟨hsecs ▸ Instant.secs_mono hle, le_rfl⟩

/-- Version 1, from the last second of 1969 to the last second of 2016, which a leap second follows. -/
def datedOctets : Octets :=
  [0x30, 0x81, 0xc2, 0x30, 0x76, 0x02, 0x01, 0x01, 0x30, 0x05, 0x06, 0x03, 0x2b, 0x65, 0x70, 0x30, 0x0c, 0x31, 0x0a,
   0x30, 0x08, 0x06, 0x03, 0x55, 0x04, 0x03, 0x0c, 0x01, 0x52, 0x30, 0x22, 0x18, 0x0f, 0x31, 0x39, 0x36, 0x39, 0x31,
   0x32, 0x33, 0x31, 0x32, 0x33, 0x35, 0x39, 0x35, 0x39, 0x5a, 0x18, 0x0f, 0x32, 0x30, 0x31, 0x36, 0x31, 0x32, 0x33,
   0x31, 0x32, 0x33, 0x35, 0x39, 0x35, 0x39, 0x5a, 0x30, 0x0c, 0x31, 0x0a, 0x30, 0x08, 0x06, 0x03, 0x55, 0x04, 0x03,
   0x0c, 0x01, 0x52, 0x30, 0x2a, 0x30, 0x05, 0x06, 0x03, 0x2b, 0x65, 0x70, 0x03, 0x21, 0x00] ++
    List.replicate 32 0x01 ++
  [0x30, 0x05, 0x06, 0x03, 0x2b, 0x65, 0x70, 0x03, 0x41, 0x00] ++ List.replicate 64 0x00

theorem bounds_datedOctets : (ofDer datedOctets).toOption.map (fun c => (c.notBefore, c.notAfter)) =
    some (⟨-1, 0, by decide⟩, ⟨1483228799, 0, by decide⟩) := by
  decide +kernel

/-- The last nanosecond of a leap second, and the ones before and after the bounds. -/
theorem validity_interval_dated : ∃ c, ofDer datedOctets = .ok c ∧
    c.isValidAt ⟨-2, 999999999, by decide⟩ = .ok false ∧ c.isValidAt ⟨-1, 0, by decide⟩ = .ok true ∧
      c.isValidAt ⟨1483228799, 1999999999, by decide⟩ = .ok true ∧ c.isValidAt ⟨1483228800, 0, by decide⟩ = .ok false ∧
        c.validity = Set.Icc ⟨-1, 0, by decide⟩ ⟨1483228799, 1999999999, by decide⟩ := by
  obtain ⟨c, hc, hbounds⟩ := Option.map_eq_some_iff.mp bounds_datedOctets
  obtain ⟨hfrom, hto⟩ := Prod.mk.inj hbounds
  have hok := toOption_eq_some_iff.mp hc
  obtain ⟨-, hanswer, -, hset, -⟩ := validity_interval hok (by rw [hfrom]) (by rw [hto])
  rw [hfrom, hto] at hset
  simp only [hfrom, hto] at hanswer
  refine ⟨c, hok, ?_, ?_, ?_, ?_, hset⟩
  · rw [hanswer _ (by decide +kernel)]
    decide +kernel
  · rw [hanswer _ (by decide +kernel)]
    decide +kernel
  · rw [hanswer _ (by decide +kernel)]
    decide +kernel
  · rw [hanswer _ (by decide +kernel)]
    decide +kernel

end Certificate

end Provenance
