import Provenance.Proofs.Asn1.Time
import Provenance.Proofs.Asn1.TimeBounded

/-!
Times are written and read again, as texts and with tag and length: what a format keeps of an instant is read back, and
what is read is written back up to the zeros at the end of a fraction.
-/
namespace Provenance.Asn1.Time

open Calendar (Instant Civil)
open Text (Numeral)

/-- The nanoseconds that a format keeps; the ones of a leap second count from its second on. -/
def kept : TimeFormat → (nanos : Nat) → Nat
  | .utc, _ => 0
  | .generalized, nanos => nanos % 1000000000

/-- A text without the zeros at the end of its fraction, and without the point where no digit is left. -/
def shortest (cs : List Char) : List Char :=
  let whole := cs.takeWhile (· ≠ '.')
  let digits := (cs.drop (whole.length + 1)).dropLast.rdropWhile (· = '0')
  if '.' ∈ cs then whole ++ (if digits = [] then [] else '.' :: digits) ++ ['Z'] else cs

variable {f : TimeFormat} {s : String} {cs ds year clock fraction : List Char} {c : Civil} {n nanos width : Nat}
  {t u : Instant}

section Writing

theorem digits_fixed (h : n < 10 ^ width) : Digits width (Text.fixed width n) n :=
  ⟨Text.length_fixed width n, Text.numeral_fixed h⟩

theorem clockForm_renderRest (h : c.Valid) : ClockForm (renderRest c) c := by
  have hday := h.day_le
  obtain ⟨-, hmonth, -, -, hhour, hminute, hsecond⟩ := h
  exact ⟨_, _, _, _, _, rfl, digits_fixed (by omega), digits_fixed (by omega), digits_fixed (by omega),
    digits_fixed (by omega), digits_fixed (by omega)⟩

theorem fractionForm_renderFraction (h : nanos < 10 ^ 9) : FractionForm .generalized (renderFraction nanos) nanos := by
  rw [renderFraction]
  split
  · next hzero => exact .inl ⟨rfl, hzero⟩
  · next hpos =>
    obtain ⟨k, hk⟩ := Text.exists_trimZeros_append (Text.fixed 9 nanos)
    obtain ⟨m, hm, hvalue⟩ := Text.numeral_append_zeros_iff.mp (hk.symm ▸ Text.numeral_fixed h)
    have hlen : (Text.trimZeros (Text.fixed 9 nanos)).length + k = 9 := by
      rw [← List.length_replicate (n := k) (a := '0'), ← List.length_append, hk, Text.length_fixed]
    have hsome : 0 < (Text.trimZeros (Text.fixed 9 nanos)).length := by
      rw [List.length_pos_iff]
      exact fun hnil => hpos ((Text.numeral_fixed h).eq_zero_of_trimZeros hnil)
    refine .inr ⟨_, m, rfl, hm, by omega, by omega, ?_⟩
    calc nanos * 10 ^ _ = m * 10 ^ k * 10 ^ _ := by rw [hvalue]
      _ = m * 10 ^ 9 := by rw [Nat.mul_assoc, ← Nat.pow_add, Nat.add_comm k, hlen]

theorem states_renderChars (h : f.covers t.year = true) : States f (renderChars f t) t.civil (kept f t.nanos) := by
  refine ⟨?_, t.valid_civil⟩
  have hclock := clockForm_renderRest t.valid_civil
  cases f with
  | utc =>
    have hrange : 1950 ≤ t.year ∧ t.year ≤ 2049 := of_decide_eq_true h
    refine ⟨_, _, [], ?_, ⟨hrange, digits_fixed ?_⟩, hclock, rfl, rfl⟩
    · rw [renderChars, List.append_nil]
    · omega
  | generalized =>
    have hrange : 0 ≤ t.year ∧ t.year ≤ 9999 := of_decide_eq_true h
    refine ⟨_, _, _, rfl, ⟨hrange.1, digits_fixed ?_⟩, hclock, ?_⟩
    · have : t.civil.year = t.year := rfl
      omega
    · exact fractionForm_renderFraction (Nat.mod_lt _ (by decide))

theorem encode_eq_ok_iff : encode f t = .ok s ↔ f.covers t.year = true ∧ s = String.ofList (renderChars f t) := by
  rw [encode]
  split
  · next h => simp [h, eq_comm]
  · next h => simp [h]

theorem decode_of_encode (h : encode f t = .ok s) :
    ∃ u, decode f s = .ok u ∧ u.secs = t.secs ∧ u.nanos = kept f t.nanos := by
  obtain ⟨hcovers, rfl⟩ := encode_eq_ok_iff.mp h
  have hstates := states_renderChars hcovers
  obtain ⟨u, hsecs, hnanos⟩ := hstates.exists_instant
  rw [hnanos] at hstates
  refine ⟨u, decode_eq_ok_iff.mpr ⟨t.civil, ?_, hsecs⟩, hsecs ▸ t.secs_civil, hnanos.symm⟩
  rwa [String.toList_ofList]

end Writing

section Reading

theorem Digits.eq_fixed (h : Digits width cs n) : Text.fixed width n = cs := by
  obtain ⟨rfl, h⟩ := h
  exact h.eq_fixed.symm

theorem renderRest_of_clockForm (h : ClockForm clock c) : renderRest c = clock := by
  obtain ⟨month, day, hour, minute, second, rfl, hmonth, hday, hhour, hminute, hsecond⟩ := h
  rw [renderRest, hmonth.eq_fixed, hday.eq_fixed, hhour.eq_fixed, hminute.eq_fixed, hsecond.eq_fixed]

/-- A fraction with nine digits has the same digits up to the zeros at its end. -/
theorem digits_of_fraction (h : Numeral ds n) (hle : ds.length ≤ 9) (hvalue : nanos * 10 ^ ds.length = n * 10 ^ 9) :
    Digits 9 (ds ++ List.replicate (9 - ds.length) '0') nanos := by
  constructor
  · rw [List.length_append, List.length_replicate, Nat.add_sub_cancel' hle]
  · exact Text.numeral_append_zeros_iff.mpr ⟨n, h, (scaled_iff hle).mpr hvalue⟩

theorem renderFraction_of_digits (h : Numeral ds n) (hle : ds.length ≤ 9)
    (hvalue : nanos * 10 ^ ds.length = n * 10 ^ 9) :
    renderFraction nanos = if Text.trimZeros ds = [] then [] else '.' :: Text.trimZeros ds := by
  have hnine := digits_of_fraction h hle hvalue
  have htrim : Text.trimZeros (Text.fixed 9 nanos) = Text.trimZeros ds := by
    rw [hnine.eq_fixed, Text.trimZeros_append_zeros]
  have hzero : nanos = 0 ↔ Text.trimZeros ds = [] := by
    constructor
    · rintro rfl
      rw [← htrim]
      decide
    · intro hnil
      rw [← Text.trimZeros_append_zeros ds (9 - ds.length)] at hnil
      exact hnine.2.eq_zero_of_trimZeros hnil
  simp only [renderFraction, hzero, htrim]

theorem not_point_of_numeral (h : Numeral cs n) : ∀ c ∈ cs, c ≠ '.' := by
  rintro c hc rfl
  exact absurd (h.1 _ hc).1 (by decide)

theorem YearForm.not_point {y : Int} (h : YearForm f year y) : ∀ c ∈ year, c ≠ '.' := by
  cases f with
  | utc => exact not_point_of_numeral h.2.2
  | generalized => exact not_point_of_numeral h.2.2

theorem ClockForm.not_point (h : ClockForm clock c) : ∀ c ∈ clock, c ≠ '.' := by
  obtain ⟨month, day, hour, minute, second, rfl, hmonth, hday, hhour, hminute, hsecond⟩ := h
  simp only [List.forall_mem_append]
  exact ⟨⟨⟨⟨not_point_of_numeral hmonth.2, not_point_of_numeral hday.2⟩, not_point_of_numeral hhour.2⟩,
    not_point_of_numeral hminute.2⟩, not_point_of_numeral hsecond.2⟩

theorem shortest_of_no_point (h : ∀ c ∈ cs, c ≠ '.') : shortest cs = cs := if_neg fun hmem => h _ hmem rfl

theorem shortest_of_point (h : ∀ c ∈ cs, c ≠ '.') : shortest (cs ++ '.' :: ds ++ ['Z']) =
    cs ++ (if Text.trimZeros ds = [] then [] else '.' :: Text.trimZeros ds) ++ ['Z'] := by
  have hall : ∀ c ∈ cs, decide (c ≠ '.') = true := by simpa using h
  have hwhole : (cs ++ '.' :: ds ++ ['Z']).takeWhile (· ≠ '.') = cs := by
    rw [List.append_assoc, List.takeWhile_append_of_pos hall]
    simp
  have hdigits : ((cs ++ '.' :: ds ++ ['Z']).drop (cs.length + 1)).dropLast = ds := by
    rw [List.append_assoc, ← List.drop_drop, List.drop_left]
    simp
  have hmem : '.' ∈ cs ++ '.' :: ds ++ ['Z'] := by simp
  simp only [shortest, hwhole, hdigits, if_pos hmem]
  rfl

theorem shortest_of_states (h : States .generalized cs c nanos) (ht : t.civil = c) (hnanos : nanos = t.nanos) :
    renderChars .generalized t = shortest cs := by
  obtain ⟨⟨year, clock, fraction, rfl, hyear, hclock, hfraction⟩, -⟩ := h
  have hfront : ∀ c ∈ year ++ clock, c ≠ '.' := by
    rw [List.forall_mem_append]
    exact ⟨hyear.not_point, hclock.not_point⟩
  have hlt := hfraction.lt
  rw [renderChars, ht, hyear.2.eq_fixed, renderRest_of_clockForm hclock, Nat.mod_eq_of_lt (hnanos ▸ hlt), ← hnanos]
  obtain ⟨rfl, rfl⟩ | ⟨ds, n, rfl, hds, -, hle, hvalue⟩ := hfraction
  · rw [renderFraction, if_pos rfl, shortest_of_no_point]
    rw [List.append_nil, List.forall_mem_append, List.forall_mem_singleton]
    exact ⟨hfront, by decide⟩
  · rw [renderFraction_of_digits hds hle hvalue, shortest_of_point hfront]

theorem encode_generalized_of_decode (h : decode .generalized s = .ok t) :
    encode .generalized t = .ok (String.ofList (shortest s.toList)) := by
  obtain ⟨c, hstates, hsecs⟩ := decode_eq_ok_iff.mp h
  have hcivil := Instant.civil_eq hstates.valid hsecs
  rw [encode_eq_ok_iff, shortest_of_states hstates hcivil rfl]
  obtain ⟨⟨year, clock, fraction, -, hyear, -⟩, -⟩ := hstates
  have hrange := hyear.fourDigits
  rw [← hcivil] at hrange
  exact ⟨decide_eq_true hrange, rfl⟩

theorem encode_utc_of_decode (h : decode .utc s = .ok t) : encode .utc t = .ok s := by
  obtain ⟨c, ⟨⟨year, clock, fraction, hs, ⟨hrange, hyear⟩, hclock, rfl, -⟩, hvalid⟩, hsecs⟩ := decode_eq_ok_iff.mp h
  have hcivil := Instant.civil_eq hvalid hsecs
  rw [← hcivil] at hrange
  rw [encode_eq_ok_iff]
  refine ⟨decide_eq_true hrange, ?_⟩
  rw [renderChars, hcivil, hyear.eq_fixed, renderRest_of_clockForm hclock, ← String.toList_inj, String.toList_ofList, hs,
    List.append_nil]

end Reading

section Der

variable {b content : Octets} {g : TimeFormat} {size : UInt8}

theorem toDer_eq_ok_iff : toDer f t = .ok b ↔
    ∃ s, encode f t = .ok s ∧ f.tag :: .ofNat (Text.octets s).length :: Text.octets s = b := by
  rw [toDer, bind_eq_ok_iff]
  simp only [pure, Except.pure, Except.ok.injEq]

theorem ofContent_eq_ok_iff : ofContent f size content = .ok (t, g) ↔
    f = g ∧ size.toNat = content.length ∧ ∃ s, Text.octets s = content ∧ decode f s = .ok t := by
  rw [ofContent]
  split
  · next h => simp [h]
  · next h =>
    simp only [← Text.read_eq_ok_iff]
    have hlen : size.toNat = content.length := by simpa using h
    cases Text.read content with
    | error d => simp
    | ok s => simp [map_eq_ok_iff, hlen, and_comm]

theorem ofDer_eq_ok_iff : ofDer b = .ok (t, f) ↔ ∃ size s, b = f.tag :: size :: Text.octets s ∧
    size.toNat = (Text.octets s).length ∧ decode f s = .ok t := by
  constructor
  · intro h
    unfold ofDer at h
    split at h
    · obtain ⟨rfl, hlen, s, rfl, hs⟩ := ofContent_eq_ok_iff.mp h
      exact ⟨_, s, rfl, hlen, hs⟩
    · obtain ⟨rfl, hlen, s, rfl, hs⟩ := ofContent_eq_ok_iff.mp h
      exact ⟨_, s, rfl, hlen, hs⟩
    · cases h
    · cases h
  · rintro ⟨size, s, rfl, hlen, hs⟩
    cases f with
    | utc => exact ofContent_eq_ok_iff.mpr ⟨rfl, hlen, s, rfl, hs⟩
    | generalized => exact ofContent_eq_ok_iff.mpr ⟨rfl, hlen, s, rfl, hs⟩

theorem length_octets_of_decode (h : decode f s = .ok t) : (Text.octets s).length ≤ 25 := by
  obtain ⟨c, hstates, -⟩ := decode_eq_ok_iff.mp h
  rw [Text.length_octets_of_ascii hstates.ascii]
  exact hstates.length_le

theorem ofDer_of_encode (hs : encode f t = .ok s) (hu : decode f s = .ok u) :
    ∃ b, toDer f t = .ok b ∧ ofDer b = .ok (u, f) := by
  have hlen := length_octets_of_decode hu
  have hsize : (UInt8.ofNat (Text.octets s).length).toNat = (Text.octets s).length :=
    Text.toNat_ofNat_octet (by omega)
  exact ⟨_, toDer_eq_ok_iff.mpr ⟨s, hs, rfl⟩, ofDer_eq_ok_iff.mpr ⟨_, s, rfl, hsize, hu⟩⟩

end Der

theorem covers_forValidity (h : 0 ≤ t.year ∧ t.year ≤ 9999) : (TimeFormat.forValidity t).covers t.year = true := by
  unfold TimeFormat.forValidity
  split
  · next hrange => exact decide_eq_true hrange
  · exact decide_eq_true h

theorem exists_encode_iff : (∃ s, encode f t = .ok s) ↔ f.covers t.year = true := by
  simp only [encode_eq_ok_iff, exists_and_left, exists_eq, and_true]

/-- An instant is written exactly if its year has the digits for it, and the text, alone or with tag and length, is read
as what the format keeps of the instant. A text that is read is the one that its instant is written as, but for zeros
at the end of a fraction; and with tag and length the length is that of the text, in one octet of the short form. -/
theorem round_trips :
    (∀ t, ((∃ s, encode .generalized t = .ok s) ↔ 0 ≤ t.year ∧ t.year ≤ 9999) ∧
      ((∃ s, encode .utc t = .ok s) ↔ 1950 ≤ t.year ∧ t.year ≤ 2049) ∧
      (0 ≤ t.year ∧ t.year ≤ 9999 → ∃ s, encode (.forValidity t) t = .ok s)) ∧
    (∀ f t s, encode f t = .ok s → ∃ u, decode f s = .ok u ∧ u.secs = t.secs ∧ u.nanos = kept f t.nanos ∧
      ∃ b, toDer f t = .ok b ∧ ofDer b = .ok (u, f)) ∧
    (∀ s t, decode .utc s = .ok t → encode .utc t = .ok s) ∧
    (∀ s t, decode .generalized s = .ok t → encode .generalized t = .ok (String.ofList (shortest s.toList))) ∧
    ∀ b t f, ofDer b = .ok (t, f) ↔ ∃ size s, b = f.tag :: size :: Text.octets s ∧ size < 128 ∧
      size.toNat = (Text.octets s).length ∧ decode f s = .ok t := by
  refine ⟨?_, ?_, ?_, ?_, ?_⟩
  · intro t
    refine ⟨exists_encode_iff.trans decide_eq_true_iff, exists_encode_iff.trans decide_eq_true_iff, ?_⟩
    intro h
    exact exists_encode_iff.mpr (covers_forValidity h)
  · intro f t s hs
    obtain ⟨u, hu, hsecs, hnanos⟩ := decode_of_encode hs
    exact ⟨u, hu, hsecs, hnanos, ofDer_of_encode hs hu⟩
  · intro s t h
    exact encode_utc_of_decode h
  · intro s t h
    exact encode_generalized_of_decode h
  · intro b t f
    rw [ofDer_eq_ok_iff]
    constructor
    · rintro ⟨size, s, rfl, hsize, hs⟩
      have hlen := length_octets_of_decode hs
      refine ⟨size, s, rfl, UInt8.lt_iff_toNat_lt.mpr ?_, hsize, hs⟩
      have : (128 : UInt8).toNat = 128 := rfl
      omega
    · rintro ⟨size, s, hb, -, hsize, hs⟩
      exact ⟨size, s, hb, hsize, hs⟩

example : renderChars .generalized ⟨1483228799, 1500000000, by decide⟩ = "20161231235959.5Z".toList := by
  decide +kernel

end Provenance.Asn1.Time
