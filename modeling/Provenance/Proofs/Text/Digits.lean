import Mathlib.Data.List.DropRight
import Mathlib.Data.List.Induction
import Mathlib.Data.Nat.Digits.Defs
import Mathlib.Tactic.Ring
import Provenance.Text.Digits

/-!
Fields of decimal digits hold the numbers that fit them, and a number is read from digits exactly if they spell it.
-/
namespace Provenance.Text

theorem tenTo_eq (w : Nat) : tenTo w = 10 ^ w := by
  induction w with
  | zero => rfl
  | succ w ih => rw [tenTo, ih, pow_succ, Nat.mul_comm]

@[simp] theorem length_fixed (w n : Nat) : (fixed w n).length = w := by
  induction w with
  | zero => rfl
  | succ w ih => rw [fixed, List.length_cons, ih]

theorem digitValue?_digit (n : Nat) : digitValue? (digit n) = some (n % 10) := by
  have hall : ∀ d < 10, digitValue? (Char.ofNat (48 + d)) = some d := by decide
  exact hall (n % 10) (Nat.mod_lt n (by decide))

theorem isDigit_of_mem_fixed {w n : Nat} {c : Char} (h : c ∈ fixed w n) : isDigit c := by
  induction w with
  | zero => cases h
  | succ w ih =>
    obtain rfl | h := List.mem_cons.mp h
    · rw [isDigit, digitValue?_digit]
      rfl
    · exact ih h

theorem numberFrom?_fixed (m w n : Nat) : numberFrom? m (fixed w n) = some (m * 10 ^ w + n % 10 ^ w) := by
  induction w generalizing m with
  | zero => simp [fixed, numberFrom?, Nat.mod_one]
  | succ w ih =>
    have hsplit : n % 10 ^ (w + 1) = n % 10 ^ w + 10 ^ w * (n / 10 ^ w % 10) := Nat.mod_pow_succ
    rw [fixed, numberFrom?, digitValue?_digit, Option.bind_some, ih, tenTo_eq, hsplit, pow_succ]
    congr 1
    ring

theorem number?_fixed {w n : Nat} (h : n < 10 ^ w) : number? (fixed w n) = some n := by
  rw [number?, numberFrom?_fixed, Nat.zero_mul, Nat.zero_add, Nat.mod_eq_of_lt h]

/-- ASCII digits, the first one the most significant, and the number that they spell. -/
def Numeral (cs : List Char) (n : Nat) : Prop :=
  (∀ c ∈ cs, '0' ≤ c ∧ c ≤ '9') ∧ Nat.ofDigits 10 (cs.reverse.map fun c => c.toNat - 48) = n

variable {cs ds : List Char} {c : Char} {d k m n : Nat}

theorem digitValue?_eq_some_iff : digitValue? c = some d ↔ ('0' ≤ c ∧ c ≤ '9') ∧ c.toNat - 48 = d := by
  rw [digitValue?]
  split
  · next h => rw [Option.some_inj, and_iff_right h]
  · next h => simp [h]

theorem numberFrom?_append : numberFrom? m (cs ++ ds) = (numberFrom? m cs).bind (numberFrom? · ds) := by
  induction cs generalizing m with
  | nil => rfl
  | cons c cs ih =>
    simp only [List.cons_append, numberFrom?]
    cases digitValue? c with
    | none => rfl
    | some d => exact ih

theorem number?_concat : number? (cs ++ [c]) = (number? cs).bind fun m => (digitValue? c).map (10 * m + ·) := by
  rw [number?, numberFrom?_append]
  congr 1
  funext m
  rw [numberFrom?]
  cases digitValue? c <;> rfl

theorem numeral_concat_iff :
    Numeral (cs ++ [c]) n ↔ ∃ m, Numeral cs m ∧ ∃ d, (('0' ≤ c ∧ c ≤ '9') ∧ c.toNat - 48 = d) ∧ 10 * m + d = n := by
  simp only [Numeral, List.forall_mem_append, List.forall_mem_singleton, List.reverse_append, List.reverse_singleton,
    List.singleton_append, List.map_cons, Nat.ofDigits_cons]
  constructor
  · rintro ⟨⟨hcs, hc⟩, rfl⟩
    exact ⟨_, ⟨hcs, rfl⟩, _, ⟨hc, rfl⟩, Nat.add_comm _ _⟩
  · rintro ⟨m, ⟨hcs, rfl⟩, d, ⟨hc, rfl⟩, rfl⟩
    exact ⟨⟨hcs, hc⟩, Nat.add_comm _ _⟩

theorem number?_eq_some_iff : number? cs = some n ↔ Numeral cs n := by
  induction cs using List.reverseRecOn generalizing n with
  | nil => simp [number?, numberFrom?, Numeral]
  | append_singleton cs c ih =>
    rw [number?_concat, numeral_concat_iff]
    simp only [Option.bind_eq_some_iff, Option.map_eq_some_iff, digitValue?_eq_some_iff, ih]

theorem le_of_numberFrom? (h : numberFrom? n cs = some m) : n ≤ m := by
  induction cs generalizing n with
  | nil => exact (Option.some.inj h).le
  | cons c cs ih =>
    obtain ⟨d, -, h⟩ := Option.bind_eq_some_iff.mp h
    have := ih h
    omega

theorem isSome_number?_eq (cs : List Char) : (number? cs).isSome = cs.all isDigit := by
  induction cs using List.reverseRecOn with
  | nil => rfl
  | append_singleton cs c ih =>
    rw [number?_concat, List.all_append, ← ih]
    cases number? cs <;> simp [isDigit]

theorem numeral_fixed (h : n < 10 ^ k) : Numeral (fixed k n) n := number?_eq_some_iff.mp (number?_fixed h)

theorem fixed_succ_eq_concat (w n : Nat) : fixed (w + 1) n = fixed w (n / 10) ++ [digit n] := by
  induction w with
  | zero => simp [fixed, tenTo]
  | succ w ih => rw [fixed, ih, fixed, List.cons_append, tenTo, Nat.div_div_eq_div_mul]

theorem digit_of_value (h : '0' ≤ c ∧ c ≤ '9') : digit (10 * m + (c.toNat - 48)) = c := by
  have hlo : 48 ≤ c.toNat := h.1
  have hhi : c.toNat ≤ 57 := h.2
  have hsum : 48 + (10 * m + (c.toNat - 48)) % 10 = c.toNat := by omega
  rw [digit, hsum, Char.ofNat_toNat]

/-- There is one numeral of each length for a number. -/
theorem Numeral.eq_fixed (h : Numeral cs n) : cs = fixed cs.length n := by
  induction cs using List.reverseRecOn generalizing n with
  | nil => rfl
  | append_singleton cs c ih =>
    obtain ⟨m, hm, d, ⟨hc, rfl⟩, rfl⟩ := numeral_concat_iff.mp h
    have hlast : (10 * m + (c.toNat - 48)) / 10 = m := by
      have hhi : c.toNat ≤ 57 := hc.2
      omega
    rw [List.length_append, List.length_singleton, fixed_succ_eq_concat, hlast, ← ih hm, digit_of_value hc]

theorem Numeral.lt (h : Numeral cs n) : n < 10 ^ cs.length := by
  have hread : number? (fixed cs.length n) = some n := h.eq_fixed ▸ number?_eq_some_iff.mpr h
  rw [number?, numberFrom?_fixed, Nat.zero_mul, Nat.zero_add, Option.some_inj] at hread
  exact hread ▸ Nat.mod_lt n (Nat.pow_pos (by decide))

theorem numberFrom?_zeros : numberFrom? m (List.replicate k '0') = some (m * 10 ^ k) := by
  induction k generalizing m with
  | zero => simp [numberFrom?]
  | succ k ih =>
    have hzero : digitValue? '0' = some 0 := rfl
    rw [List.replicate_succ, numberFrom?, hzero, Option.bind_some, ih, pow_succ]
    congr 1
    ring

theorem numeral_append_zeros_iff : Numeral (cs ++ List.replicate k '0') n ↔ ∃ m, Numeral cs m ∧ m * 10 ^ k = n := by
  rw [← number?_eq_some_iff, number?, numberFrom?_append, Option.bind_eq_some_iff]
  simp only [numberFrom?_zeros, Option.some_inj, ← number?_eq_some_iff, number?]

theorem trimZeros_eq_rdropWhile (cs : List Char) : trimZeros cs = cs.rdropWhile (· == '0') := rfl

theorem trimZeros_append_zeros (cs : List Char) (k : Nat) : trimZeros (cs ++ List.replicate k '0') = trimZeros cs := by
  rw [trimZeros_eq_rdropWhile, trimZeros_eq_rdropWhile]
  induction k with
  | zero => rw [List.replicate_zero, List.append_nil]
  | succ k ih => rw [List.replicate_succ', ← List.append_assoc, List.rdropWhile_concat_pos _ _ _ (by decide), ih]

theorem exists_trimZeros_append (cs : List Char) : ∃ k, trimZeros cs ++ List.replicate k '0' = cs := by
  induction cs using List.reverseRecOn with
  | nil => exact ⟨0, rfl⟩
  | append_singleton cs c ih =>
    by_cases hc : c = '0'
    · obtain ⟨k, hk⟩ := ih
      refine ⟨k + 1, ?_⟩
      rw [trimZeros_eq_rdropWhile, List.rdropWhile_concat_pos _ _ _ (by simpa using hc), List.replicate_succ',
        ← List.append_assoc, ← trimZeros_eq_rdropWhile, hk, hc]
    · refine ⟨0, ?_⟩
      rw [trimZeros_eq_rdropWhile, List.rdropWhile_concat_neg _ _ _ (by simpa using hc), List.replicate_zero,
        List.append_nil]

theorem Numeral.eq_zero_of_trimZeros (h : Numeral cs n) (hnil : trimZeros cs = []) : n = 0 := by
  obtain ⟨k, hk⟩ := exists_trimZeros_append cs
  rw [← hk, hnil] at h
  obtain ⟨m, hm, rfl⟩ := numeral_append_zeros_iff.mp h
  have hzero : 0 = m := hm.2
  rw [← hzero, Nat.zero_mul]

end Provenance.Text
