import Provenance.Asn1.Time
import Provenance.Proofs.Calendar.Civil
import Provenance.Proofs.Faults
import Provenance.Proofs.Text.Digits

/-!
The texts of the two time formats: which of them state a date and a time of the calendar, and that an instant is read
from exactly these.
-/
namespace Provenance.Asn1.Time

open Calendar (Instant Civil)
open Text (Numeral)

def Digits (width : Nat) (cs : List Char) (n : Nat) : Prop := cs.length = width ∧ Numeral cs n

/-- Two digits stand for a year from 1950 to 2049. -/
def YearForm : TimeFormat → List Char → Int → Prop
  | .utc, cs, y => (1950 ≤ y ∧ y ≤ 2049) ∧ Digits 2 cs (y % 100).toNat
  | .generalized, cs, y => 0 ≤ y ∧ Digits 4 cs y.toNat

def ClockForm (cs : List Char) (c : Civil) : Prop :=
  ∃ month day hour minute second, cs = month ++ day ++ hour ++ minute ++ second ∧ Digits 2 month c.month ∧
    Digits 2 day c.day ∧ Digits 2 hour c.hour ∧ Digits 2 minute c.minute ∧ Digits 2 second c.second

/-- One to nine digits after a point are a decimal fraction of a second. -/
def FractionForm : TimeFormat → List Char → (nanos : Nat) → Prop
  | .utc, cs, nanos => cs = [] ∧ nanos = 0
  | .generalized, cs, nanos => cs = [] ∧ nanos = 0 ∨
    ∃ ds n, cs = '.' :: ds ∧ Numeral ds n ∧ 1 ≤ ds.length ∧ ds.length ≤ 9 ∧ nanos * 10 ^ ds.length = n * 10 ^ 9

/-- A text of the format whose fields are those of a date and time of the calendar. -/
structure States (f : TimeFormat) (cs : List Char) (c : Civil) (nanos : Nat) : Prop where
  text : ∃ year clock fraction, cs = year ++ clock ++ fraction ++ ['Z'] ∧ YearForm f year c.year ∧ ClockForm clock c ∧
    FractionForm f fraction nanos
  valid : c.Valid

variable {f : TimeFormat} {cs ds year clock fraction : List Char} {c : Civil} {n nanos start width : Nat} {t : Instant}

theorem Digits.lt (h : Digits width cs n) : n < 10 ^ width := h.1 ▸ h.2.lt

theorem Digits.ascii (h : Digits width cs n) : ∀ c ∈ cs, c.toNat < 128 := by
  intro c hc
  have hhi : c.toNat ≤ 57 := (h.2.1 c hc).2
  omega

theorem YearForm.ascii {y : Int} (h : YearForm f cs y) : ∀ c ∈ cs, c.toNat < 128 := by
  cases f with
  | utc => exact h.2.ascii
  | generalized => exact h.2.ascii

theorem ClockForm.ascii (h : ClockForm cs c) : ∀ c ∈ cs, c.toNat < 128 := by
  obtain ⟨month, day, hour, minute, second, rfl, hmonth, hday, hhour, hminute, hsecond⟩ := h
  simp only [List.forall_mem_append]
  exact ⟨⟨⟨⟨hmonth.ascii, hday.ascii⟩, hhour.ascii⟩, hminute.ascii⟩, hsecond.ascii⟩

theorem FractionForm.ascii (h : FractionForm f cs nanos) : ∀ c ∈ cs, c.toNat < 128 := by
  cases f with
  | utc =>
    obtain ⟨rfl, -⟩ := h
    exact List.forall_mem_nil _
  | generalized =>
    obtain ⟨rfl, -⟩ | ⟨ds, n, rfl, hds, -⟩ := h
    · exact List.forall_mem_nil _
    · exact List.forall_mem_cons.mpr ⟨by decide, Digits.ascii ⟨rfl, hds⟩⟩

theorem States.ascii (h : States f cs c nanos) : ∀ c ∈ cs, c.toNat < 128 := by
  obtain ⟨⟨year, clock, fraction, rfl, hyear, hclock, hfraction⟩, -⟩ := h
  simp only [List.forall_mem_append, List.forall_mem_singleton]
  exact ⟨⟨⟨hyear.ascii, hclock.ascii⟩, hfraction.ascii⟩, by decide⟩

theorem ClockForm.length_eq (h : ClockForm cs c) : cs.length = 10 := by
  obtain ⟨month, day, hour, minute, second, rfl, hmonth, hday, hhour, hminute, hsecond⟩ := h
  simp only [List.length_append, hmonth.1, hday.1, hhour.1, hminute.1, hsecond.1]

theorem States.length_le (h : States f cs c nanos) : cs.length ≤ 25 := by
  obtain ⟨⟨year, clock, fraction, rfl, hyear, hclock, hfraction⟩, -⟩ := h
  have hy : year.length ≤ 4 := by
    cases f with
    | utc => exact hyear.2.1.trans_le (by decide)
    | generalized => exact hyear.2.1.le
  have hf : fraction.length ≤ 10 := by
    cases f with
    | utc => exact hfraction.1 ▸ Nat.zero_le 10
    | generalized =>
      obtain ⟨rfl, -⟩ | ⟨ds, n, rfl, -, -, hle, -⟩ := hfraction
      · exact Nat.zero_le 10
      · exact Nat.succ_le_succ hle
  simp only [List.length_append, List.length_singleton, hclock.length_eq]
  omega

section Reading

theorem field_eq_ok_iff : field cs start width = .ok n ↔ Numeral ((cs.drop start).take width) n := by
  rw [field, ← Text.number?_eq_some_iff]
  cases Text.number? ((cs.drop start).take width) <;> simp [refuse]

theorem clockForm_iff (h : clock.length = 10) :
    ClockForm clock c ↔ Numeral (clock.take 2) c.month ∧ Numeral ((clock.drop 2).take 2) c.day ∧
      Numeral ((clock.drop 4).take 2) c.hour ∧ Numeral ((clock.drop 6).take 2) c.minute ∧
      Numeral ((clock.drop 8).take 2) c.second := by
  constructor
  · rintro ⟨month, day, hour, minute, second, rfl, ⟨hm, hmonth⟩, ⟨hd, hday⟩, ⟨hh, hhour⟩, ⟨hi, hminute⟩, ⟨hs, hsecond⟩⟩
    obtain ⟨_, _, rfl⟩ := List.length_eq_two.mp hm
    obtain ⟨_, _, rfl⟩ := List.length_eq_two.mp hd
    obtain ⟨_, _, rfl⟩ := List.length_eq_two.mp hh
    obtain ⟨_, _, rfl⟩ := List.length_eq_two.mp hi
    obtain ⟨_, _, rfl⟩ := List.length_eq_two.mp hs
    exact ⟨hmonth, hday, hhour, hminute, hsecond⟩
  · rintro ⟨hmonth, hday, hhour, hminute, hsecond⟩
    refine ⟨_, _, _, _, _, ?_, ⟨?_, hmonth⟩, ⟨?_, hday⟩, ⟨?_, hhour⟩, ⟨?_, hminute⟩, ⟨?_, hsecond⟩⟩
    · simp only [← List.take_add]
      exact (List.take_of_length_le h.le).symm
    all_goals simp [h]

theorem found_eq_ok_iff {why : String} {o : Option Instant} :
    (match o with
      | some t => .ok t
      | none => refuse cs why : Outcome Instant) = .ok t ↔ o = some t := by
  cases o <;> simp [refuse]

theorem assemble_eq_ok_iff {y : Nat} (h : ((cs.drop start).take 10).length = 10) :
    assemble cs y start nanos = .ok t ↔
      ∃ c : Civil, c.year = y ∧ ClockForm ((cs.drop start).take 10) c ∧ c.Valid ∧ c.secs = t.secs ∧ nanos = t.nanos := by
  simp only [assemble, bind_eq_ok_iff, field_eq_ok_iff, clockForm_iff h, List.drop_take, List.take_take,
    List.drop_drop, ← Instant.ofCivil?_eq_some_iff]
  constructor
  · rintro ⟨month, hmonth, day, hday, hour, hhour, minute, hminute, second, hsecond, hfound⟩
    exact ⟨⟨y, month, day, hour, minute, second⟩, rfl, ⟨hmonth, hday, hhour, hminute, hsecond⟩,
      found_eq_ok_iff.mp hfound⟩
  · rintro ⟨⟨_, month, day, hour, minute, second⟩, rfl, ⟨hmonth, hday, hhour, hminute, hsecond⟩, hfound⟩
    exact ⟨month, hmonth, day, hday, hour, hhour, minute, hminute, second, hsecond, found_eq_ok_iff.mpr hfound⟩

theorem scaled_iff (h : ds.length ≤ 9) : n * 10 ^ (9 - ds.length) = nanos ↔ nanos * 10 ^ ds.length = n * 10 ^ 9 := by
  have hsplit : n * 10 ^ 9 = n * 10 ^ (9 - ds.length) * 10 ^ ds.length := by
    rw [Nat.mul_assoc, ← Nat.pow_add, Nat.sub_add_cancel h]
  rw [hsplit, Nat.mul_left_inj (Nat.pow_pos (by decide)).ne', eq_comm]

theorem fraction_eq_ok_iff : Time.fraction cs ds = .ok nanos ↔ FractionForm .generalized ds nanos := by
  unfold Time.fraction FractionForm
  split
  · simp [eq_comm]
  · next ds =>
    split
    · next h =>
      simp only [refuse, reduceCtorEq, List.cons_ne_nil, false_and, false_or, false_iff]
      rintro ⟨es, n, ⟨⟩, -, hpos, hle, -⟩
      omega
    · next h =>
      rw [map_eq_ok_iff]
      simp only [field_eq_ok_iff, List.drop_zero, List.take_length]
      constructor
      · rintro ⟨n, hn, hvalue⟩
        exact .inr ⟨ds, n, rfl, hn, by omega, by omega, (scaled_iff (by omega)).mp (Text.tenTo_eq _ ▸ hvalue)⟩
      · rintro (⟨⟨⟩, -⟩ | ⟨_, n, ⟨⟩, hn, -, hle, hvalue⟩)
        exact ⟨n, hn, Text.tenTo_eq _ ▸ (scaled_iff hle).mpr hvalue⟩
  · next h h' =>
    simp only [refuse, reduceCtorEq, false_iff, not_or, not_exists]
    exact ⟨fun hnil => h hnil.1, fun es n he => h' es he.1⟩

/-- Year, clock and fraction of a text that is long enough and ends with `Z`. -/
theorem exists_parts (width : Nat) (hlen : width + 11 ≤ cs.length) (hz : cs.getLast? = some 'Z') :
    ∃ year clock fraction, cs = year ++ clock ++ fraction ++ ['Z'] ∧ year.length = width ∧ clock.length = 10 := by
  obtain ⟨r, rfl⟩ := List.getLast?_eq_some_iff.mp hz
  refine ⟨r.take width, (r.drop width).take 10, (r.drop width).drop 10, ?_, ?_, ?_⟩
  · rw [List.append_assoc (r.take width), List.take_append_drop, List.take_append_drop]
  · grind
  · grind

section Parts

variable (hy : year.length = start) (hc : clock.length = 10)
include hy

theorem field_year_eq_ok_iff : field (year ++ clock ++ fraction ++ ['Z']) 0 start = .ok n ↔ Numeral year n := by
  rw [field_eq_ok_iff, List.drop_zero, List.append_assoc, List.append_assoc, List.take_left' hy]

include hc

theorem assemble_parts_eq_ok_iff {y : Nat} :
    assemble (year ++ clock ++ fraction ++ ['Z']) y start nanos = .ok t ↔
      ∃ c : Civil, c.year = y ∧ ClockForm clock c ∧ c.Valid ∧ c.secs = t.secs ∧ nanos = t.nanos := by
  have hclock : ((year ++ clock ++ fraction ++ ['Z']).drop start).take 10 = clock := by
    rw [List.append_assoc, List.append_assoc, List.drop_left' hy, List.take_left' hc]
  rw [assemble_eq_ok_iff (by rw [hclock, hc]), hclock]

theorem take_fraction : ((year ++ clock ++ fraction ++ ['Z']).drop (start + 10)).take
    ((year ++ clock ++ fraction ++ ['Z']).length - (start + 11)) = fraction := by
  have hfront : (year ++ clock).length = start + 10 := by rw [List.length_append, hy, hc]
  have hall : (year ++ clock ++ fraction ++ ['Z']).length - (start + 11) = fraction.length := by
    rw [List.length_append, List.length_append, hfront, List.length_singleton]
    omega
  rw [hall, List.append_assoc, List.drop_left' hfront, List.take_left]

end Parts

theorem pivot_iff {yy : Nat} {y : Int} (h : yy < 10 ^ 2) :
    y = (if yy < 50 then 2000 + yy else 1900 + yy : Nat) ↔ (1950 ≤ y ∧ y ≤ 2049) ∧ (y % 100).toNat = yy := by
  split <;> omega

theorem decodeUtc_eq_ok_iff : decodeUtc cs = .ok t ↔ ∃ c, States .utc cs c t.nanos ∧ c.secs = t.secs := by
  rw [decodeUtc]
  constructor
  · intro h
    split at h
    · cases h
    · next hshape =>
      obtain ⟨hlen, hz⟩ : cs.length = 13 ∧ cs.getLast? = some 'Z' := by simpa using hshape
      obtain ⟨year, clock, fraction, rfl, hy, hc⟩ := exists_parts 2 hlen.ge hz
      have hempty : fraction = [] := by
        apply List.eq_nil_of_length_eq_zero
        simp only [List.length_append, List.length_singleton] at hlen
        omega
      obtain ⟨yy, hyy, h⟩ := bind_eq_ok_iff.mp h
      rw [field_year_eq_ok_iff hy] at hyy
      obtain ⟨c, hyear, hclock, hvalid, hsecs, hnanos⟩ := (assemble_parts_eq_ok_iff hy hc).mp h
      obtain ⟨hrange, hyy'⟩ := (pivot_iff (Digits.lt ⟨hy, hyy⟩)).mp hyear
      have hform : YearForm .utc year c.year := ⟨hrange, hy, hyy'.symm ▸ hyy⟩
      exact ⟨c, ⟨⟨year, clock, fraction, rfl, hform, hclock, hempty, hnanos.symm⟩, hvalid⟩, hsecs⟩
  · rintro ⟨c, ⟨⟨year, clock, fraction, rfl, ⟨hrange, hy, hyear⟩, hclock, rfl, hnanos⟩, hvalid⟩, hsecs⟩
    have hc := hclock.length_eq
    have hshape : ¬ ((year ++ clock ++ [] ++ ['Z']).length ≠ 13 ∨ (year ++ clock ++ [] ++ ['Z']).getLast? ≠ some 'Z') := by
      simp [hy, hc]
    have hyy := (pivot_iff (Digits.lt ⟨hy, hyear⟩)).mpr ⟨hrange, rfl⟩
    rw [if_neg hshape, bind_eq_ok_iff]
    refine ⟨_, (field_year_eq_ok_iff hy).mpr hyear, (assemble_parts_eq_ok_iff hy hc).mpr ?_⟩
    exact ⟨c, hyy, hclock, hvalid, hsecs, hnanos.symm⟩

theorem decodeGeneralized_eq_ok_iff :
    decodeGeneralized cs = .ok t ↔ ∃ c, States .generalized cs c t.nanos ∧ c.secs = t.secs := by
  rw [decodeGeneralized]
  constructor
  · intro h
    split at h
    · cases h
    · next hshape =>
      obtain ⟨hlen, hz⟩ : 15 ≤ cs.length ∧ cs.getLast? = some 'Z' := by simpa using hshape
      obtain ⟨year, clock, fraction, rfl, hy, hc⟩ := exists_parts 4 hlen hz
      obtain ⟨y, hyear, h⟩ := bind_eq_ok_iff.mp h
      obtain ⟨nanos, hfraction, h⟩ := bind_eq_ok_iff.mp h
      rw [field_year_eq_ok_iff hy] at hyear
      rw [fraction_eq_ok_iff, take_fraction hy hc] at hfraction
      obtain ⟨c, hy', hclock, hvalid, hsecs, rfl⟩ := (assemble_parts_eq_ok_iff hy hc).mp h
      have hform : YearForm .generalized year c.year := ⟨by omega, hy, by rwa [hy', Int.toNat_natCast]⟩
      exact ⟨c, ⟨⟨year, clock, fraction, rfl, hform, hclock, hfraction⟩, hvalid⟩, hsecs⟩
  · rintro ⟨c, ⟨⟨year, clock, fraction, rfl, ⟨hpos, hy, hyear⟩, hclock, hfraction⟩, hvalid⟩, hsecs⟩
    have hc := hclock.length_eq
    have hshape : ¬ ((year ++ clock ++ fraction ++ ['Z']).length < 15 ∨
        (year ++ clock ++ fraction ++ ['Z']).getLast? ≠ some 'Z') := by
      simp only [List.length_append, hy, hc, List.length_singleton, List.getLast?_concat, ne_eq, not_true, or_false]
      omega
    rw [if_neg hshape, bind_eq_ok_iff]
    refine ⟨_, (field_year_eq_ok_iff hy).mpr hyear, bind_eq_ok_iff.mpr ⟨t.nanos, ?_, ?_⟩⟩
    · rw [fraction_eq_ok_iff, take_fraction hy hc]
      exact hfraction
    · apply (assemble_parts_eq_ok_iff hy hc).mpr
      exact ⟨c, (Int.toNat_of_nonneg hpos).symm, hclock, hvalid, hsecs, rfl⟩

theorem decode_eq_ok_iff {s : String} : decode f s = .ok t ↔ ∃ c, States f s.toList c t.nanos ∧ c.secs = t.secs := by
  unfold decode decodeChars
  split
  · cases f with
    | utc => exact decodeUtc_eq_ok_iff
    | generalized => exact decodeGeneralized_eq_ok_iff
  · next hascii =>
    refine ⟨nofun, ?_⟩
    rintro ⟨c, h, -⟩
    exact absurd (by simpa using h.ascii) hascii

end Reading

section Refusal

theorem YearForm.fourDigits {y : Int} (h : YearForm f cs y) : 0 ≤ y ∧ y ≤ 9999 := by
  cases f with
  | utc =>
    obtain ⟨hrange, -⟩ := h
    omega
  | generalized =>
    obtain ⟨hpos, hdigits⟩ := h
    have := hdigits.lt
    omega

theorem FractionForm.lt (h : FractionForm f cs nanos) : nanos < 10 ^ 9 := by
  cases f with
  | utc =>
    obtain ⟨-, rfl⟩ := h
    decide
  | generalized =>
    obtain ⟨-, rfl⟩ | ⟨ds, n, -, hn, -, -, hvalue⟩ := h
    · decide
    · apply Nat.lt_of_mul_lt_mul_right (a := 10 ^ ds.length)
      rw [hvalue, Nat.mul_comm (10 ^ 9)]
      exact Nat.mul_lt_mul_of_pos_right hn.lt (by decide)

theorem States.exists_instant (h : States f cs c nanos) : ∃ t : Instant, c.secs = t.secs ∧ nanos = t.nanos := by
  obtain ⟨⟨year, clock, fraction, -, hyear, -, hfraction⟩, hvalid⟩ := h
  exact ⟨⟨c.secs, nanos, Instant.valid_of_civil hvalid hyear.fourDigits hfraction.lt⟩, rfl, rfl⟩

theorem formal_refuse {α : Type} (cs : List Char) (why : String) : Formal (refuse cs why : Outcome α) :=
  faultsIn_error rfl

theorem formal_field (cs : List Char) (start width : Nat) : Formal (field cs start width) := by
  unfold field
  split
  · exact faultsIn_ok _
  · exact formal_refuse _ _

theorem formal_assemble (cs : List Char) (year start nanos : Nat) : Formal (assemble cs year start nanos) := by
  apply faultsIn_bind (formal_field _ _ _)
  intro month
  apply faultsIn_bind (formal_field _ _ _)
  intro day
  apply faultsIn_bind (formal_field _ _ _)
  intro hour
  apply faultsIn_bind (formal_field _ _ _)
  intro minute
  apply faultsIn_bind (formal_field _ _ _)
  intro second
  split
  · exact faultsIn_ok _
  · exact formal_refuse _ _

theorem formal_fraction (cs ds : List Char) : Formal (Time.fraction cs ds) := by
  unfold Time.fraction
  split
  · exact faultsIn_ok _
  · split
    · exact formal_refuse _ _
    · exact faultsIn_map (formal_field _ _ _)
  · exact formal_refuse _ _

theorem formal_decodeChars (f : TimeFormat) (cs : List Char) : Formal (decodeChars f cs) := by
  unfold decodeChars
  split
  · cases f with
    | utc =>
      simp only [decodeUtc]
      split
      · exact formal_refuse _ _
      · exact faultsIn_bind (formal_field _ _ _) fun _ => formal_assemble _ _ _ _
    | generalized =>
      simp only [decodeGeneralized]
      split
      · exact formal_refuse _ _
      · exact faultsIn_bind (formal_field _ _ _) fun _ => faultsIn_bind (formal_fraction _ _) fun _ =>
          formal_assemble _ _ _ _
  · exact formal_refuse _ _

/-- What states no time is refused as malformed, and nothing else. -/
theorem decode_eq_error_iff {s : String} :
    (∃ e, decode f s = .error e ∧ e.isFormat = true) ↔ ∀ c nanos, ¬ States f s.toList c nanos := by
  constructor
  · rintro ⟨e, he, -⟩ c nanos h
    obtain ⟨t, hsecs, rfl⟩ := h.exists_instant
    have ht := decode_eq_ok_iff.mpr ⟨c, h, hsecs⟩
    cases ht.symm.trans he
  · intro hnone
    cases h : decode f s with
    | error e => exact ⟨e, rfl, formal_decodeChars f s.toList e h⟩
    | ok t =>
      obtain ⟨c, hstates, -⟩ := decode_eq_ok_iff.mp h
      exact absurd hstates (hnone c t.nanos)

end Refusal

end Provenance.Asn1.Time
