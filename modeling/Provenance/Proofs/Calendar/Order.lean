import Mathlib.Data.Prod.Lex
import Mathlib.Order.Interval.Set.OrdConnected
import Provenance.Proofs.Calendar.Civil

/-!
The order of instants: by their seconds and, within a second, by their nanoseconds, so that a leap second comes after
second 59 and before the next minute.
-/
namespace Provenance.Calendar.Instant

/-- What instants are compared by. -/
def position (t : Instant) : Int ×ₗ Nat := toLex (t.secs, t.nanos)

theorem position_injective : Function.Injective position := by
  rintro ⟨secs, nanos, _⟩ ⟨secs', nanos', _⟩ h
  cases h
  rfl

instance : LinearOrder Instant := LinearOrder.lift' position position_injective

/-- The last instant of a second, at its end or at the end of the leap second that may follow it. -/
def endOfSecond (t : Instant) : Instant :=
  ⟨t.secs, if t.secs % 60 = 59 then 1999999999 else 999999999, t.valid.1, t.valid.2.1, by split <;> decide, by
    split
    · next h => exact fun _ => h
    · exact fun h => absurd h (by decide)⟩

variable {t u : Instant}

theorem le_iff : t ≤ u ↔ t.secs < u.secs ∨ t.secs = u.secs ∧ t.nanos ≤ u.nanos := Prod.Lex.toLex_le_toLex

theorem secs_mono (h : t ≤ u) : t.secs ≤ u.secs := by
  obtain h | ⟨h, -⟩ := le_iff.mp h <;> omega

theorem year_mono (h : t ≤ u) : t.year ≤ u.year := by
  by_contra hlt
  have hday : t.secs / 86400 ≤ u.secs / 86400 := Int.ediv_le_ediv (by decide) (secs_mono h)
  have hnext := daysBeforeYear_mono (Int.add_one_le_of_lt (Int.not_le.mp hlt))
  have hfirst := daysBeforeYear_yearOfDay_le (t.secs / 86400 + epochDay)
  have hlast := lt_daysBeforeYear_yearOfDay (u.secs / 86400 + epochDay)
  have ht : t.year = yearOfDay (t.secs / 86400 + epochDay) := rfl
  have hu : u.year = yearOfDay (u.secs / 86400 + epochDay) := rfl
  rw [ht, hu] at hnext
  omega

theorem fourDigitYear_of_le {t u v : Instant} (ht : t.FourDigitYear) (hv : v.FourDigitYear) (htu : t ≤ u)
    (huv : u ≤ v) : u.FourDigitYear := ⟨ht.1.trans (year_mono htu), (year_mono huv).trans hv.2⟩

section Seconds

theorem wholeSecond_le_iff : t.wholeSecond ≤ u ↔ t.secs ≤ u.secs := by
  have hsecs : t.wholeSecond.secs = t.secs := rfl
  have hnanos : t.wholeSecond.nanos = 0 := rfl
  rw [le_iff, hsecs, hnanos]
  omega

theorem le_wholeSecond_iff (h : u.nanos = 0) : u ≤ t.wholeSecond ↔ u.secs ≤ t.secs := by
  have hsecs : t.wholeSecond.secs = t.secs := rfl
  rw [le_iff, hsecs, h]
  omega

theorem le_iff_of_nanos_eq_zero (h : u.nanos = 0) : u ≤ t ↔ u.secs ≤ t.secs := by
  rw [le_iff, h]
  omega

theorem nanos_le_endOfSecond (h : t.secs = u.secs) : t.nanos ≤ u.endOfSecond.nanos := by
  obtain ⟨-, -, hlt, hleap⟩ := t.valid
  rw [endOfSecond]
  simp only
  split
  · omega
  · next hnot => exact Nat.le_pred_of_lt (Nat.lt_of_not_le fun hge => hnot (h ▸ hleap hge))

theorem le_endOfSecond_iff : t ≤ u.endOfSecond ↔ t.secs ≤ u.secs := by
  constructor
  · exact secs_mono
  · intro h
    obtain hlt | heq := lt_or_eq_of_le h
    · exact le_iff.mpr (.inl hlt)
    · exact le_iff.mpr (.inr ⟨heq, nanos_le_endOfSecond heq⟩)

/-- Seconds are counted down also before 1970, and a leap second counts as second 59. -/
theorem isGreatest_wholeSecond (t : Instant) : IsGreatest {u | u.nanos = 0 ∧ u ≤ t} t.wholeSecond := by
  constructor
  · exact ⟨rfl, wholeSecond_le_iff.mpr le_rfl⟩
  · rintro u ⟨hu, hle⟩
    exact (le_wholeSecond_iff hu).mpr (secs_mono hle)

theorem isGreatest_endOfSecond (h : u.nanos = 0) : IsGreatest {t | t.wholeSecond = u} u.endOfSecond := by
  constructor
  · exact le_antisymm (wholeSecond_le_iff.mpr le_rfl) ((le_wholeSecond_iff h).mpr le_rfl)
  · rintro t rfl
    exact le_endOfSecond_iff.mpr le_rfl

end Seconds

end Provenance.Calendar.Instant
