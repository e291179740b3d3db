import Provenance.Calendar.Instant

/-!
The civil date and time of a second is a valid one and falls on that second, and each valid one is that of its second.
-/
namespace Provenance.Calendar

theorem daysBeforeYear_succ (y : Int) :
    daysBeforeYear (y + 1) = daysBeforeYear y + 365 + if isLeap y then 1 else 0 := by
  simp only [daysBeforeYear, isLeap, decide_eq_true_eq]
  split <;> omega

theorem daysBeforeYear_yearOfDay_le (d : Int) : daysBeforeYear (yearOfDay d) ≤ d := by
  unfold yearOfDay
  simp only
  split
  · simp only [daysBeforeYear] at *
    omega
  split
  · assumption
  · omega

theorem lt_daysBeforeYear_yearOfDay (d : Int) : d < daysBeforeYear (yearOfDay d + 1) := by
  unfold yearOfDay
  simp only
  split
  · rwa [Int.sub_add_cancel]
  split
  · simp only [daysBeforeYear] at *
    omega
  · omega

def total (ls : List Nat) : Nat := ls.foldr (· + ·) 0

theorem total_cons (l : Nat) (ls : List Nat) : total (l :: ls) = l + total ls := rfl

theorem total_monthLengths (y : Int) : total (monthLengths y) = 365 + if isLeap y then 1 else 0 := by
  cases h : isLeap y <;> simp [total, monthLengths, h]

/-- The day lies in the month that it is assigned to, after the months before. -/
theorem splitMonths_spec {ls : List Nat} {d : Nat} (m : Nat) (h : d < total ls) :
    ∃ i k, splitMonths ls m d = (m + i, k + 1) ∧ k < ls[i]?.getD 0 ∧ total (ls.take i) + k = d := by
  induction ls generalizing m d with
  | nil => cases h
  | cons l ls ih =>
    rw [splitMonths]
    split
    · next hd => exact ⟨0, d, rfl, hd, Nat.zero_add d⟩
    · next hd =>
      rw [total_cons] at h
      obtain ⟨i, k, heq, hk, hsum⟩ := ih (m + 1) (d := d - l) (by omega)
      refine ⟨i + 1, k, ?_, hk, ?_⟩
      · rw [heq, Nat.add_assoc, Nat.add_comm 1 i]
      · rw [List.take_succ_cons, total_cons]
        omega

theorem splitMonths_of_lt {ls : List Nat} {i k : Nat} (m : Nat) (h : k < ls[i]?.getD 0) :
    splitMonths ls m (total (ls.take i) + k) = (m + i, k + 1) := by
  induction ls generalizing i m with
  | nil => cases h
  | cons l ls ih =>
    rw [splitMonths]
    cases i with
    | zero =>
      have hl : k < l := h
      have hk : total (List.take 0 (l :: ls)) + k = k := Nat.zero_add k
      rw [hk, if_pos hl]
      rfl
    | succ i =>
      rw [List.take_succ_cons, total_cons, if_neg (by omega)]
      have hrest : l + total (ls.take i) + k - l = total (ls.take i) + k := by omega
      rw [hrest, ih (m + 1) h, Nat.add_assoc, Nat.add_comm 1 i]

theorem total_take_lt {ls : List Nat} {i k : Nat} (h : k < ls[i]?.getD 0) : total (ls.take i) + k < total ls := by
  induction ls generalizing i with
  | nil => cases h
  | cons l ls ih =>
    cases i with
    | zero =>
      have hl : k < l := h
      have hk : total (List.take 0 (l :: ls)) + k = k := Nat.zero_add k
      rw [hk, total_cons]
      omega
    | succ i =>
      have := ih (i := i) h
      rw [List.take_succ_cons, total_cons, total_cons]
      omega

theorem daysBeforeYear_mono {y z : Int} (h : y ≤ z) : daysBeforeYear y ≤ daysBeforeYear z := by
  simp only [daysBeforeYear]
  omega

/-- A day is of one year only. -/
theorem yearOfDay_eq {y d : Int} (hle : daysBeforeYear y ≤ d) (hlt : d < daysBeforeYear (y + 1)) : yearOfDay d = y := by
  have hle' := daysBeforeYear_yearOfDay_le d
  have hlt' := lt_daysBeforeYear_yearOfDay d
  rcases Int.lt_trichotomy (yearOfDay d) y with h | h | h
  · have := daysBeforeYear_mono (Int.add_one_le_of_lt h)
    omega
  · exact h
  · have := daysBeforeYear_mono (Int.add_one_le_of_lt h)
    omega

theorem le_of_mem_monthLengths {y : Int} {l : Nat} (h : l ∈ monthLengths y) : l ≤ 31 := by
  simp only [monthLengths, List.mem_cons, List.not_mem_nil, or_false] at h
  split at h <;> omega

namespace Civil

theorem Valid.day_le {c : Civil} (h : c.Valid) : c.day ≤ 31 := by
  obtain ⟨-, -, -, hd, -⟩ := h
  cases hl : (monthLengths c.year)[c.month - 1]? with
  | none =>
    rw [hl] at hd
    exact Nat.le_trans hd (by decide)
  | some l =>
    rw [hl] at hd
    exact Nat.le_trans hd (le_of_mem_monthLengths (List.mem_of_getElem? hl))

/-- A day, counted from the start of year 0, is its year, month and day of the month. -/
theorem ofSecs_spec (t : Int) :
    ∃ i k, (ofSecs t).month = i + 1 ∧ (ofSecs t).day = k + 1 ∧ k < (monthLengths (ofSecs t).year)[i]?.getD 0 ∧
      daysBeforeYear (ofSecs t).year + total ((monthLengths (ofSecs t).year).take i) + k = t / 86400 + epochDay := by
  have hle := daysBeforeYear_yearOfDay_le (t / 86400 + epochDay)
  have hlt := lt_daysBeforeYear_yearOfDay (t / 86400 + epochDay)
  have hfits : (t / 86400 + epochDay - daysBeforeYear (yearOfDay (t / 86400 + epochDay))).toNat <
      total (monthLengths (yearOfDay (t / 86400 + epochDay))) := by
    rw [daysBeforeYear_succ] at hlt
    rw [total_monthLengths]
    cases h : isLeap (yearOfDay (t / 86400 + epochDay)) <;>
      simp only [h, if_true, Bool.false_eq_true, if_false] at hlt ⊢ <;> omega
  obtain ⟨i, k, heq, hk, hd⟩ := splitMonths_spec 1 hfits
  refine ⟨i, k, ?_, ?_, hk, ?_⟩
  · simp only [ofSecs, heq, Nat.add_comm]
  · simp only [ofSecs, heq]
  · simp only [ofSecs]
    omega

theorem valid_ofSecs (t : Int) : (ofSecs t).Valid := by
  obtain ⟨i, k, hm, hd, hk, -⟩ := ofSecs_spec t
  have hi : i < 12 := by
    apply Nat.lt_of_not_le
    intro hi
    rw [List.getElem?_eq_none (by simpa [monthLengths] using hi)] at hk
    cases hk
  rw [Valid, hm, hd]
  refine ⟨by omega, by omega, by omega, hk, ?_, ?_, ?_⟩ <;> simp only [ofSecs] <;> omega

theorem secs_ofSecs (t : Int) : (ofSecs t).secs = t := by
  obtain ⟨i, k, hm, hd, -, hday⟩ := ofSecs_spec t
  have hdays : (ofSecs t).days = t / 86400 := by
    have hbefore : daysBeforeMonth (ofSecs t).year (i + 1) = total ((monthLengths (ofSecs t).year).take i) := rfl
    rw [days, hm, hd, hbefore]
    omega
  rw [secs, hdays]
  simp only [ofSecs]
  omega

/-- Days since the start of the year, and the seconds of the day. -/
theorem Valid.exists_days {c : Civil} (h : c.Valid) :
    ∃ i k, c.month = i + 1 ∧ c.day = k + 1 ∧ k < (monthLengths c.year)[i]?.getD 0 ∧
      c.days + epochDay = daysBeforeYear c.year + (total ((monthLengths c.year).take i) + k : Nat) := by
  obtain ⟨hmonth, -, hday, hlen, -⟩ := h
  refine ⟨c.month - 1, c.day - 1, by omega, by omega, by omega, ?_⟩
  have hbefore : daysBeforeMonth c.year c.month = total ((monthLengths c.year).take (c.month - 1)) := rfl
  rw [days, hbefore]
  omega

theorem Valid.bounds {c : Civil} (h : c.Valid) :
    daysBeforeYear c.year ≤ c.days + epochDay ∧ c.days + epochDay < daysBeforeYear (c.year + 1) := by
  obtain ⟨i, k, -, -, hk, hdays⟩ := h.exists_days
  have hlt := total_take_lt hk
  rw [total_monthLengths] at hlt
  rw [hdays, daysBeforeYear_succ]
  split at hlt <;> split <;> simp_all <;> omega

/-- Different valid dates and times fall on different seconds. -/
theorem ofSecs_secs {c : Civil} (h : c.Valid) : ofSecs c.secs = c := by
  obtain ⟨i, k, hm, hd, hk, hdays⟩ := h.exists_days
  obtain ⟨hle, hlt⟩ := h.bounds
  obtain ⟨-, -, -, -, hhour, hminute, hsecond⟩ := h
  have hday : c.secs / 86400 = c.days := by
    rw [secs]
    omega
  have hclock : (c.secs % 86400).toNat = 3600 * c.hour + 60 * c.minute + c.second := by
    rw [secs]
    omega
  have hyear : yearOfDay (c.days + epochDay) = c.year := yearOfDay_eq hle hlt
  have hrest : (c.days + epochDay - daysBeforeYear c.year).toNat = total ((monthLengths c.year).take i) + k := by
    omega
  rcases c with ⟨year, month, day, hour, minute, second⟩
  simp only [ofSecs, hday, hclock, hyear, hrest, splitMonths_of_lt 1 hk] at *
  subst hm hd
  simp only [mk.injEq, true_and]
  omega

theorem second_ofSecs (t : Int) : ((ofSecs t).second : Int) = t % 60 := by
  simp only [ofSecs]
  omega

end Civil

namespace Instant

/-- Years that are written without a sign. -/
def FourDigitYear (t : Instant) : Prop := 0 ≤ t.year ∧ t.year ≤ 9999

instance (t : Instant) : Decidable t.FourDigitYear := by unfold FourDigitYear; infer_instance

theorem valid_civil (t : Instant) : t.civil.Valid := Civil.valid_ofSecs t.secs

theorem secs_civil (t : Instant) : t.civil.secs = t.secs := Civil.secs_ofSecs t.secs

theorem second_civil (t : Instant) : (t.civil.second : Int) = t.secs % 60 := Civil.second_ofSecs t.secs

theorem of?_eq (t : Instant) : of? t.secs t.nanos = some t := dif_pos t.valid

theorem of?_eq_some_iff {secs : Int} {nanos : Nat} {t : Instant} :
    of? secs nanos = some t ↔ secs = t.secs ∧ nanos = t.nanos := by
  constructor
  · intro h
    unfold of? at h
    split at h
    · cases h
      exact ⟨rfl, rfl⟩
    · cases h
  · rintro ⟨rfl, rfl⟩
    exact t.of?_eq

theorem ofCivil?_eq_some_iff {c : Civil} {nanos : Nat} {t : Instant} :
    ofCivil? c nanos = some t ↔ c.Valid ∧ c.secs = t.secs ∧ nanos = t.nanos := by
  unfold ofCivil?
  split
  · next h => rw [of?_eq_some_iff, and_iff_right h]
  · next h => simp [h]

theorem civil_eq {c : Civil} {t : Instant} (h : c.Valid) (ht : c.secs = t.secs) : t.civil = c := by
  rw [civil, ← ht, Civil.ofSecs_secs h]

/-- The calendar of instants holds all years that are written with four digits. -/
theorem valid_of_civil {c : Civil} {nanos : Nat} (h : c.Valid) (hyear : 0 ≤ c.year ∧ c.year ≤ 9999)
    (hnanos : nanos < 1000000000) : Valid c.secs nanos := by
  obtain ⟨hle, hlt⟩ := h.bounds
  have hfirst := daysBeforeYear_mono hyear.1
  have hlast := daysBeforeYear_mono (Int.add_le_add_right hyear.2 1)
  have hepoch : epochDay = 719528 := by decide
  have hzero : daysBeforeYear 0 = 0 := by decide
  have hend : daysBeforeYear (9999 + 1) = 3652425 := by decide
  obtain ⟨-, -, -, -, hhour, hminute, hsecond⟩ := h
  rw [Valid, minSecs_eq, maxSecs_eq, Civil.secs]
  omega

end Instant

end Provenance.Calendar
