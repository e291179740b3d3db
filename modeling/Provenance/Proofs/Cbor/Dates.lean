import Provenance.Proofs.Cbor.Fields

/-!
Dates: the three forms in which a field may hold one. A tagged timestamp and a bare one are read back as any instant
that four digits are enough for the year of, and a number of seconds as the instant that starts this second and as no
other.
-/
namespace Provenance.Cbor

open Calendar (Instant minSecs maxSecs)
open Calendar.Timestamp (render Refusal)
open Text (quoted)

theorem Item.exists_ofInt? {i : Int} (hlo : -0x10000000000000000 ≤ i) (hhi : i < 0x10000000000000000) :
    ∃ x, ofInt? i = some x ∧ x.int? = some i := by
  unfold ofInt?
  by_cases hi : 0 ≤ i
  · refine ⟨_, by rw [if_pos hi, if_pos hhi], ?_⟩
    have hn : (UInt64.ofNat i.toNat).toNat = i.toNat := UInt64.toNat_ofNat_of_lt' (by simp; omega)
    rw [int?, hn, Int.toNat_of_nonneg hi]
  · refine ⟨_, by rw [if_neg hi, if_pos hlo], ?_⟩
    have hn : (UInt64.ofNat (-1 - i).toNat).toNat = (-1 - i).toNat := UInt64.toNat_ofNat_of_lt' (by simp; omega)
    rw [int?, hn, Int.toNat_of_nonneg (by omega)]
    congr 1
    omega

namespace Field

variable {name s : String} {t : Instant} {x : Item} {i : Int}

theorem date_text (name s : String) : date name (.text s) = timestamp name s := rfl

theorem date_epoch (name : String) (x : Item) : date name (.tag tagEpoch x) = int name x >>= epoch name := rfl

theorem epoch_eq_ok_iff : epoch name i = .ok t ↔ i = t.secs ∧ t.nanos = 0 := by
  rw [epoch, eq_comm (a := t.nanos), ← Instant.of?_eq_some_iff]
  cases Instant.of? i 0 <;> simp

theorem of?_eq_none (h : ¬ (minSecs ≤ i ∧ i ≤ maxSecs)) (nanos : Nat) : Instant.of? i nanos = none :=
  dif_neg fun hv => h ⟨hv.1, hv.2.1⟩

/-- Every instant is at a number of seconds that an integer of 64 bits holds. -/
theorem secs_lt (t : Instant) : -2 ^ 63 ≤ t.secs ∧ t.secs < 2 ^ 63 := by
  obtain ⟨hmin, hmax, -⟩ := t.valid
  rw [Calendar.minSecs_eq] at hmin
  rw [Calendar.maxSecs_eq] at hmax
  omega

theorem timestamp_render (name : String) (t : Instant) :
    timestamp name (render .zulu t) = if t.FourDigitYear then .ok t
      else .error (.malformed s!"{name}: {quoted (render .zulu t)} is not RFC 3339: {Refusal.invalid.message}") := by
  rw [timestamp, Calendar.Timestamp.parse_render]
  by_cases h : t.FourDigitYear
  · rw [if_pos h, if_pos h]
  · rw [if_neg h, if_neg h]

theorem date_epoch_eq_ok_iff : date name (.tag tagEpoch x) = .ok t ↔ x.int? = some t.secs ∧ t.nanos = 0 := by
  rw [date_epoch, bind_eq_ok_iff]
  simp only [int_eq_ok_iff, epoch_eq_ok_iff]
  constructor
  · rintro ⟨i, hx, rfl, hn⟩
    exact ⟨hx, hn⟩
  · rintro ⟨hx, hn⟩
    exact ⟨_, hx, rfl, hn⟩

/-- What is written for an instant is read as it with all its nanoseconds, leap seconds included, whether it is tagged
or not, as long as the year has four digits; for other years both forms are refused for their characters. Leap seconds
are those written as second 60: a thousand million nanoseconds or more in another second make no instant here. Seconds
since 1970 under the other tag are read as the whole second that they count to, in any year, and refused where there is
no such instant. -/
theorem date_forms_agree (name : String) :
    (∀ t : Instant, date name (.ofInstant t) = if t.FourDigitYear then .ok t
        else .error (.malformed s!"{name}: {quoted (render .zulu t)} is not RFC 3339: {Refusal.invalid.message}")) ∧
      (∀ t : Instant, date name (.text (render .zulu t)) = date name (.ofInstant t)) ∧
      (∀ t : Instant, t.nanos = 0 → ∃ x, Item.ofInt? t.secs = some x ∧ date name (.tag tagEpoch x) = .ok t ∧
        (t.FourDigitYear → date name (.tag tagEpoch x) = date name (.ofInstant t))) ∧
      (∀ x t, date name (.tag tagEpoch x) = .ok t ↔ x.int? = some t.secs ∧ t.nanos = 0) ∧
      ∀ x i, x.int? = some i → i < -2 ^ 63 ∨ 2 ^ 63 ≤ i ∨ i < minSecs ∨ maxSecs < i →
        date name (.tag tagEpoch x) = .error (.malformed s!"{name}: epoch {i} out of range") := by
  have htagged (t : Instant) := (date_ofInstant_eq name t).trans (timestamp_render name t)
  refine ⟨htagged, ?_, ?_, ?_, ?_⟩
  · intro t
    rw [date_text, date_ofInstant_eq]
  · intro t hn
    have hsecs := secs_lt t
    obtain ⟨x, hx, hint⟩ := Item.exists_ofInt? (i := t.secs) (by omega) (by omega)
    have hepoch : date name (.tag tagEpoch x) = .ok t := date_epoch_eq_ok_iff.mpr ⟨hint, hn⟩
    refine ⟨x, hx, hepoch, ?_⟩
    intro hyear
    rw [hepoch, date_ofInstant name hyear]
  · intro x t
    exact date_epoch_eq_ok_iff
  · intro x i hx hout
    have hrange : ¬ (minSecs ≤ i ∧ i ≤ maxSecs) := by
      rw [Calendar.minSecs_eq, Calendar.maxSecs_eq] at *
      omega
    rw [date_epoch, int_eq_ok_iff.mpr hx, ok_bind, epoch, of?_eq_none hrange]

end Field

end Provenance.Cbor
