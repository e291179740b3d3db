import Provenance.Asn1.TimeBounded
import Provenance.Proofs.Asn1.Time
import Provenance.Proofs.Text.Ascii

/-!
The bounds of a machine are kept by the reading of times, whatever the text: it has an answer, the one that the reading
without bounds has.
-/
namespace Provenance

namespace Asn1.Time.Bounded

open Calendar (Instant)
open Attempt (ofOption ofOutcome)
open Text (Ascii)

variable {α β : Type} {cs ds : List Char} {k m n start width y nanos : Nat} {f : TimeFormat}

theorem ofOutcome_bind {x : Outcome α} {f : α → Attempt β} {g : α → Outcome β}
    (h : ∀ a, x = .ok a → f a = ofOutcome (g a)) : (ofOutcome x >>= f) = ofOutcome (x >>= g) := by
  cases x with
  | error e => rfl
  | ok a => exact h a rfl

theorem ofOption_bind (a : α) (f : α → Attempt β) : (ofOption (some a) >>= f) = f a := rfl

theorem word_of_lt (h : n < 4294967296) : word n = pure n := by
  rw [word, if_pos h]
  rfl

theorem less_of_le (h : n ≤ m) : less m n = pure (m - n) := by
  rw [less, if_pos h]
  rfl

theorem power_ten (h : k ≤ 9) : power 10 k = pure (10 ^ k) := by
  induction k with
  | zero => rfl
  | succ k ih =>
    have hlt : 10 * 10 ^ k < 4294967296 := by
      have := Nat.pow_le_pow_right (n := 10) (by decide) (Nat.le_of_succ_le_succ h)
      omega
    rw [power, ih (Nat.le_of_succ_le h), pure_bind, word_of_lt hlt, Nat.pow_succ, Nat.mul_comm]

theorem parse_of_numberFrom? (h : Text.numberFrom? n ds = some m) (hm : m < 4294967296) : parse n ds = pure m := by
  induction ds generalizing n with
  | nil => rw [parse, Option.some.inj h]
  | cons c ds ih =>
    obtain ⟨d, hd, h⟩ := Option.bind_eq_some_iff.mp h
    obtain ⟨-, rfl⟩ := Text.digitValue?_eq_some_iff.mp hd
    -- What is read so far is not above the number in the end.
    have hlt := (Text.le_of_numberFrom? h).trans_lt hm
    rw [parse, word_of_lt hlt, pure_bind, ih h]

theorem digits_eq (h : Ascii cs) (hlen : start + width ≤ cs.length) (hw : width ≤ 9) :
    digits cs start width = ofOutcome (field cs start width) := by
  have hslice := Text.slice?_of_ascii h (Nat.le_add_right start width) hlen
  rw [Nat.add_sub_cancel_left] at hslice
  rw [digits, hslice, ofOption_bind, ← Text.isSome_number?_eq, field]
  cases hn : Text.number? ((cs.drop start).take width) with
  | none => rfl
  | some n =>
    have hlt := (Text.number?_eq_some_iff.mp hn).lt
    have hpow := Nat.pow_le_pow_right (n := 10) (by decide) ((List.length_take_le width (cs.drop start)).trans hw)
    exact parse_of_numberFrom? hn (by omega)

theorem assemble_eq (h : Ascii cs) (hlen : start + 10 ≤ cs.length) :
    assemble cs y start nanos = ofOutcome (Time.assemble cs y start nanos) := by
  have hdigits (i : Nat) (hi : i ≤ 8) : digits cs (start + i) 2 = ofOutcome (field cs (start + i) 2) :=
    digits_eq h (by omega) (by decide)
  rw [assemble, Time.assemble, digits_eq h (by omega) (by decide)]
  refine ofOutcome_bind fun month _ => ?_
  rw [hdigits 2 (by decide)]
  refine ofOutcome_bind fun day _ => ?_
  rw [hdigits 4 (by decide)]
  refine ofOutcome_bind fun hour _ => ?_
  rw [hdigits 6 (by decide)]
  refine ofOutcome_bind fun minute _ => ?_
  rw [hdigits 8 (by decide)]
  refine ofOutcome_bind fun second _ => ?_
  cases Instant.ofCivil? ⟨y, month, day, hour, minute, second⟩ nanos <;> rfl

theorem scaled_eq (h : Ascii ds) (hle : ds.length ≤ 9) :
    scaled ds = ofOutcome ((field ds 0 ds.length).map (· * Text.tenTo (9 - ds.length))) := by
  rw [scaled, Text.octetCount_of_ascii h, less_of_le hle, pure_bind, power_ten (Nat.sub_le 9 _), pure_bind,
    digits_eq h (Nat.zero_add _).le hle, Text.tenTo_eq]
  have hmap (x : Outcome Nat) : x.map (· * 10 ^ (9 - ds.length)) = x >>= fun n => .ok (n * 10 ^ (9 - ds.length)) := by
    cases x <;> rfl
  rw [hmap]
  refine ofOutcome_bind fun n hn => ?_
  rw [field_eq_ok_iff, List.drop_zero, List.take_length] at hn
  -- A fraction is less than a whole second.
  have hlt : n * 10 ^ (9 - ds.length) < 10 ^ ds.length * 10 ^ (9 - ds.length) :=
    Nat.mul_lt_mul_of_pos_right hn.lt (Nat.pow_pos (by decide))
  rw [← Nat.pow_add, Nat.add_sub_cancel' hle] at hlt
  exact word_of_lt (by omega)

theorem fraction_eq (h : Ascii ds) (hne : ds ≠ []) : Bounded.fraction cs ds = ofOutcome (Time.fraction cs ds) := by
  obtain ⟨d, ds, rfl⟩ := List.exists_cons_of_ne_nil hne
  by_cases hpoint : d = '.'
  · subst hpoint
    have hds := (List.forall_mem_cons.mp h).2
    simp only [Bounded.fraction, Time.fraction, Text.octetCount_of_ascii hds]
    split
    · rfl
    · next hle => exact scaled_eq hds (by omega)
  · simp [Bounded.fraction, Time.fraction, hpoint]

theorem nanos_eq (h : Ascii cs) (hlen : 15 ≤ cs.length) :
    Bounded.nanos cs = ofOutcome (Time.fraction cs ((cs.drop 14).take (cs.length - 15))) := by
  rw [Bounded.nanos, Text.octetCount_of_ascii h]
  split
  · next hshort =>
    rw [hshort]
    rfl
  · next hlong =>
    rw [less_of_le (by omega), pure_bind, Text.slice?_of_ascii h (by omega) (by omega), ofOption_bind, Nat.sub_sub]
    apply fraction_eq
    · exact fun c hc => h c (List.mem_of_mem_drop (List.mem_of_mem_take hc))
    · rw [← List.length_pos_iff, List.length_take, List.length_drop]
      omega

theorem decodeUtc_eq (h : Ascii cs) : decodeUtc cs = ofOutcome (Time.decodeUtc cs) := by
  rw [decodeUtc, Time.decodeUtc, Text.octetCount_of_ascii h]
  split
  · rfl
  · next hshape =>
    have hlen : cs.length = 13 := by
      by_contra hne
      exact hshape (.inl hne)
    rw [digits_eq h (by omega) (by decide)]
    refine ofOutcome_bind fun yy hyy => ?_
    rw [field_eq_ok_iff] at hyy
    have hlt : yy < 10 ^ 2 := hyy.lt.trans_le (Nat.pow_le_pow_right (by decide) (List.length_take_le _ _))
    rw [word_of_lt (by split <;> omega), pure_bind, assemble_eq h (by omega)]

theorem decodeGeneralized_eq (h : Ascii cs) : decodeGeneralized cs = ofOutcome (Time.decodeGeneralized cs) := by
  rw [decodeGeneralized, Time.decodeGeneralized, Text.octetCount_of_ascii h]
  split
  · rfl
  · next hshape =>
    have hlen : 15 ≤ cs.length := by
      by_contra hlt
      exact hshape (.inl (by omega))
    rw [digits_eq h (by omega) (by decide)]
    refine ofOutcome_bind fun year _ => ?_
    rw [nanos_eq h hlen]
    exact ofOutcome_bind fun nanos _ => assemble_eq h (by omega)

/-- No slice of the text and no word is out of bounds. -/
theorem decode_eq_some (f : TimeFormat) (s : String) : decode f s = some (Time.decode f s) := by
  have heq : decodeChars f s.toList = ofOutcome (Time.decodeChars f s.toList) := by
    rw [decodeChars.eq_def, Time.decodeChars.eq_def]
    split
    · next hall =>
      have h : Ascii s.toList := by simpa [Ascii] using hall
      cases f with
      | utc => exact decodeUtc_eq h
      | generalized => exact decodeGeneralized_eq h
    · rfl
  rw [decode, heq]
  rfl

end Asn1.Time.Bounded

namespace Asn1.Time

/-- An instant is read from a text exactly if the text states it; every other text is refused as malformed; and no text
makes the reading step out of the bounds of a machine. -/
theorem decode_exact :
    (∀ f s t, decode f s = .ok t ↔ ∃ c, States f s.toList c t.nanos ∧ c.secs = t.secs) ∧
      (∀ f s, (∃ e, decode f s = .error e ∧ e.isFormat = true) ↔ ∀ c nanos, ¬ States f s.toList c nanos) ∧
      ∀ f s, Bounded.decode f s = some (decode f s) := by
  refine ⟨?_, ?_, ?_⟩
  · intro f s t
    exact decode_eq_ok_iff
  · intro f s
    exact decode_eq_error_iff
  · intro f s
    exact Bounded.decode_eq_some f s

end Asn1.Time

end Provenance
