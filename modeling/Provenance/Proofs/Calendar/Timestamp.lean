import Provenance.Calendar.Timestamp
import Provenance.Proofs.Calendar.Civil
import Provenance.Proofs.Outcome
import Provenance.Proofs.Text.Digits

/-!
A written timestamp is read back as the instant that it was written for, provided that its year has four digits. A year
with a sign is refused for its characters.
-/
namespace Provenance.Calendar.Timestamp

theorem number?_fixed {w n : Nat} (h : n < 10 ^ w) (r : List Char) : number? w (Text.fixed w n ++ r) = some (n, r) := by
  have htake : (Text.fixed w n ++ r).take w = Text.fixed w n := List.take_left' (Text.length_fixed w n)
  have hdrop : (Text.fixed w n ++ r).drop w = r := List.drop_left' (Text.length_fixed w n)
  rw [number?, htake, hdrop, if_pos (Text.length_fixed w n), Text.number?_fixed h, Option.map_some]

theorem number?_of_sign {w : Nat} {c : Char} (h : Text.digitValue? c = none) (r : List Char) :
    number? (w + 1) (c :: r) = none := by
  have hsign : Text.number? (c :: r.take w) = none := by rw [Text.number?, Text.numberFrom?, h, Option.bind_none]
  rw [number?, List.take_succ_cons, hsign, Option.map_none, ite_self]

theorem number?_renderYear {y : Int} (h : 0 ≤ y ∧ y ≤ 9999) (r : List Char) :
    number? 4 (renderYear y ++ r) = some (y.toNat, r) := by
  rw [renderYear, if_pos h]
  exact number?_fixed (by omega) r

theorem number?_renderYear_of_sign {y : Int} (h : ¬ (0 ≤ y ∧ y ≤ 9999)) (r : List Char) :
    number? 4 (renderYear y ++ r) = none := by
  rw [renderYear, if_neg h]
  apply number?_of_sign
  split <;> decide

theorem fraction?_of_no_point {c : Char} (hc : c ≠ '.') (r : List Char) : fraction? (c :: r) = some (0, c :: r) := by
  unfold fraction?
  split
  · next heq =>
    cases heq
    exact absurd rfl hc
  · rfl

theorem fraction?_fixed {w n : Nat} {c : Char} (hc : Text.isDigit c = false) (hpos : 0 < w) (hw : w ≤ 9)
    (hn : n < 10 ^ w) (r : List Char) :
    fraction? ('.' :: (Text.fixed w n ++ c :: r)) = some (n * 10 ^ (9 - w), c :: r) := by
  have hdigits : ∀ d ∈ Text.fixed w n, Text.isDigit d := fun d hd => Text.isDigit_of_mem_fixed hd
  have htake : (Text.fixed w n ++ c :: r).takeWhile Text.isDigit = Text.fixed w n := by
    rw [List.takeWhile_append_of_pos hdigits, List.takeWhile_cons_of_neg (by simp [hc]), List.append_nil]
  have hdrop : (Text.fixed w n ++ c :: r).dropWhile Text.isDigit = c :: r := by
    rw [List.dropWhile_append_of_pos hdigits, List.dropWhile_cons_of_neg (by simp [hc])]
  have hkept : (Text.fixed w n).take 9 = Text.fixed w n := List.take_of_length_le (by rwa [Text.length_fixed])
  have hsome : (Text.fixed w n).isEmpty = false := by
    rw [List.isEmpty_eq_false_iff, ← List.length_pos_iff, Text.length_fixed]
    exact hpos
  simp only [fraction?, htake, hdrop, hkept, hsome, Text.number?_fixed hn, Text.length_fixed, Text.tenTo_eq,
    Option.map_some, Bool.false_eq_true, if_false]

/-- As few digits are written as there are, and none are lost. -/
theorem fraction?_renderFraction {n : Nat} (hn : n < 1000000000) {c : Char} (hpoint : c ≠ '.')
    (hc : Text.isDigit c = false) (r : List Char) :
    fraction? (renderFraction n ++ c :: r) = some (n, c :: r) := by
  unfold renderFraction
  split
  · next h =>
    rw [List.nil_append, h]
    exact fraction?_of_no_point hpoint r
  split
  · rw [List.cons_append, fraction?_fixed hc (by decide) (by decide) (by omega)]
    congr 2
    omega
  split
  · rw [List.cons_append, fraction?_fixed hc (by decide) (by decide) (by omega)]
    congr 2
    omega
  · rw [List.cons_append, fraction?_fixed hc (by decide) (by decide) (by omega)]
    congr 2
    omega

theorem Zone.fraction?_render (z : Zone) {n : Nat} (hn : n < 1000000000) :
    fraction? (renderFraction n ++ z.render) = some (n, z.render) := by
  cases z with
  | zulu => exact fraction?_renderFraction hn (by decide) rfl []
  | zero => exact fraction?_renderFraction hn (by decide) rfl _

theorem Zone.offset_render (z : Zone) : offset z.render = .ok (0, []) := by
  cases z with
  | zulu => rfl
  | zero => rfl

theorem number_of {w n : Nat} {cs r : List Char} (h : number? w cs = some (n, r)) : number w cs = .ok (n, r) := by
  rw [number, h]

theorem fraction_of {n : Nat} {cs r : List Char} (h : fraction? cs = some (n, r)) : fraction cs = .ok (n, r) := by
  rw [fraction, h]

theorem expect_of {p : Char → Bool} {c : Char} (h : p c) (r : List Char) : expect p (c :: r) = .ok r := if_pos h

theorem within_of {lo hi n : Nat} (hlo : lo ≤ n) (hhi : n ≤ hi) : within lo hi n = .ok () := if_pos ⟨hlo, hhi⟩

theorem length_le_octetCount (cs : List Char) : cs.length ≤ Text.octetCount cs := by
  induction cs with
  | nil => exact Nat.zero_le _
  | cons c cs ih =>
    have hc : 0 < c.utf8Size := c.utf8Size_pos
    rw [Text.octetCount, List.length_cons]
    omega

theorem number_of_none {w : Nat} {cs : List Char} (h : number? w cs = none) (hw : w ≤ cs.length) :
    number w cs = .error .invalid := by
  have hle := length_le_octetCount cs
  rw [number, h, if_neg (by omega)]

/-- A leap second is written as second 60, and no other second is. -/
theorem second_and_nanos (t : Instant) :
    let second := t.civil.second + t.nanos / 1000000000
    second ≤ 60 ∧ (if second = 60 then 59 else second) = t.civil.second ∧
      (if second = 60 then t.nanos % 1000000000 + 1000000000 else t.nanos % 1000000000) = t.nanos := by
  have hsecond := t.second_civil
  obtain ⟨-, -, hnanos, hleap⟩ := t.valid
  by_cases h : 1000000000 ≤ t.nanos
  · have := hleap h
    refine ⟨?_, ?_, ?_⟩ <;> grind
  · refine ⟨?_, ?_, ?_⟩ <;> grind

theorem instantAt_civil (t : Instant) :
    instantAt { t.civil with second := t.civil.second + t.nanos / 1000000000 } 0 (t.nanos % 1000000000) = .ok t := by
  obtain ⟨-, hwhole, hnanos⟩ := second_and_nanos t
  simp only [instantAt, hwhole, hnanos, Int.sub_zero]
  rw [if_pos t.valid_civil, t.secs_civil, t.of?_eq]

theorem parseChars_renderChars (z : Zone) {t : Instant} (h : t.FourDigitYear) :
    parseChars (renderChars z t) = .ok t := by
  have hyear : (t.year.toNat : Int) = t.civil.year := Int.toNat_of_nonneg h.1
  have hlast := t.valid_civil.day_le
  obtain ⟨hmonth, hmonth', hday, -, hhour, hminute, hwhole⟩ := t.valid_civil
  obtain ⟨hsecond, -, -⟩ := second_and_nanos t
  simp only [renderChars, List.append_assoc, List.cons_append]
  refine bind_eq_ok_iff.mpr ⟨_, number_of (number?_renderYear h _), ?_⟩
  refine bind_eq_ok_iff.mpr ⟨_, expect_of rfl _, ?_⟩
  refine bind_eq_ok_iff.mpr ⟨_, number_of (number?_fixed (by omega) _), ?_⟩
  refine bind_eq_ok_iff.mpr ⟨_, within_of hmonth hmonth', ?_⟩
  refine bind_eq_ok_iff.mpr ⟨_, expect_of rfl _, ?_⟩
  refine bind_eq_ok_iff.mpr ⟨_, number_of (number?_fixed (by omega) _), ?_⟩
  refine bind_eq_ok_iff.mpr ⟨_, within_of hday hlast, ?_⟩
  refine bind_eq_ok_iff.mpr ⟨_, expect_of rfl _, ?_⟩
  refine bind_eq_ok_iff.mpr ⟨_, number_of (number?_fixed (by omega) _), ?_⟩
  refine bind_eq_ok_iff.mpr ⟨_, within_of (Nat.zero_le _) (by omega), ?_⟩
  refine bind_eq_ok_iff.mpr ⟨_, expect_of rfl _, ?_⟩
  refine bind_eq_ok_iff.mpr ⟨_, number_of (number?_fixed (by omega) _), ?_⟩
  refine bind_eq_ok_iff.mpr ⟨_, within_of (Nat.zero_le _) (by omega), ?_⟩
  refine bind_eq_ok_iff.mpr ⟨_, expect_of rfl _, ?_⟩
  refine bind_eq_ok_iff.mpr ⟨_, number_of (number?_fixed (by omega) _), ?_⟩
  refine bind_eq_ok_iff.mpr ⟨_, within_of (Nat.zero_le _) hsecond, ?_⟩
  refine bind_eq_ok_iff.mpr ⟨_, fraction_of (z.fraction?_render (Nat.mod_lt t.nanos (by decide))), ?_⟩
  refine bind_eq_ok_iff.mpr ⟨_, z.offset_render, ?_⟩
  refine bind_eq_ok_iff.mpr ⟨_, rfl, ?_⟩
  rw [hyear]
  exact instantAt_civil t

theorem parseChars_renderChars_of_sign (z : Zone) {t : Instant} (h : ¬ t.FourDigitYear) :
    parseChars (renderChars z t) = .error .invalid := by
  refine bind_eq_error_iff.mpr (.inl ?_)
  simp only [renderChars, List.append_assoc, List.cons_append]
  refine number_of_none (number?_renderYear_of_sign h _) ?_
  simp only [List.length_append, List.length_cons, Text.length_fixed]
  omega

/-- A written timestamp is read if and only if its year has four digits, and then as the same instant, leap seconds and
fractions of a second included. -/
theorem parse_render (z : Zone) (t : Instant) :
    parse (render z t) = if t.FourDigitYear then .ok t else .error .invalid := by
  rw [parse, render, String.toList_ofList]
  split
  · next h => exact parseChars_renderChars z h
  · next h => exact parseChars_renderChars_of_sign z h

example : render .zulu ⟨1483228799, 1500000000, by decide⟩ = "2016-12-31T23:59:60.500Z" := by decide +kernel

end Provenance.Calendar.Timestamp
