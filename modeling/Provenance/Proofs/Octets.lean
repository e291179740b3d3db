import Mathlib.Tactic.Ring
import Provenance.Octets

/-!
Octet strings of one length and the numbers below a power of 256 spell each other.
-/
namespace Provenance.Octets

theorem foldl_from (b : Octets) (n : Nat) :
    b.foldl (fun n x => n * 256 + x.toNat) n = n * 256 ^ b.length + toNat b := by
  induction b generalizing n with
  | nil => simp [toNat]
  | cons x b ih =>
    simp only [toNat, List.foldl_cons, List.length_cons]
    rw [ih (n * 256 + x.toNat), ih (0 * 256 + x.toNat), pow_succ]
    ring

theorem toNat_cons (x : UInt8) (b : Octets) : toNat (x :: b) = x.toNat * 256 ^ b.length + toNat b := by
  rw [toNat, List.foldl_cons, foldl_from, Nat.zero_mul, Nat.zero_add]

theorem toNat_lt (b : Octets) : toNat b < 256 ^ b.length := by
  induction b with
  | nil => simp [toNat]
  | cons x b ih =>
    have hx : x.toNat + 1 ≤ 256 := x.toNat_lt
    rw [toNat_cons, List.length_cons, pow_succ]
    calc x.toNat * 256 ^ b.length + toNat b < x.toNat * 256 ^ b.length + 256 ^ b.length := by omega
      _ = (x.toNat + 1) * 256 ^ b.length := by ring
      _ ≤ 256 * 256 ^ b.length := Nat.mul_le_mul_right _ hx
      _ = 256 ^ b.length * 256 := Nat.mul_comm _ _

theorem shiftRight_octets (n w : Nat) : n >>> (8 * w) = n / 256 ^ w := by
  rw [Nat.shiftRight_eq_div_pow, pow_mul, show 2 ^ 8 = 256 from rfl]

theorem toNat_ofNat_mod (w n : Nat) : toNat (ofNat w n) = n % 256 ^ w := by
  induction w with
  | zero => simp [ofNat, toNat, Nat.mod_one]
  | succ w ih =>
    have hm : n % 256 ^ (w + 1) = n % 256 ^ w + 256 ^ w * (n / 256 ^ w % 256) := Nat.mod_pow_succ
    rw [ofNat, toNat_cons, length_ofNat, ih, UInt8.toNat_ofNat', shiftRight_octets, hm]
    ring

theorem toNat_ofNat {w n : Nat} (h : n < 256 ^ w) : toNat (ofNat w n) = n := by
  rw [toNat_ofNat_mod, Nat.mod_eq_of_lt h]

theorem toNat_inj {a b : Octets} (hl : a.length = b.length) (h : toNat a = toNat b) : a = b := by
  induction a generalizing b with
  | nil => exact (List.eq_nil_of_length_eq_zero hl.symm).symm
  | cons x a ih =>
    obtain ⟨y, b, rfl⟩ := List.exists_cons_of_length_eq_add_one hl.symm
    have hl' : a.length = b.length := by simpa using hl
    rw [toNat_cons, toNat_cons, hl'] at h
    have ha := toNat_lt a
    have hb := toNat_lt b
    rw [hl'] at ha
    have hpos : 0 < 256 ^ b.length := Nat.pow_pos (by decide)
    have hx : x.toNat = y.toNat := by
      have hd := congrArg (· / 256 ^ b.length) h
      simpa [Nat.mul_add_div, Nat.div_eq_of_lt, ha, hb, hpos, Nat.mul_comm] using hd
    have hr : toNat a = toNat b := by rw [hx] at h; omega
    rw [UInt8.toNat_inj.mp hx, ih hl' hr]

theorem ofNat_toNat (b : Octets) : ofNat b.length (toNat b) = b := by
  apply toNat_inj (length_ofNat _ _)
  exact toNat_ofNat (toNat_lt b)

/-- Induction from what holds of all shorter octets. -/
theorem inductShorter {motive : Octets → Prop}
    (step : ∀ s : Octets, (∀ r : Octets, r.length < s.length → motive r) → motive s) (s : Octets) : motive s := by
  induction hn : s.length using Nat.strong_induction_on generalizing s with
  | h n ih =>
    subst hn
    exact step s fun r hr => ih _ hr r rfl

/-- Where octets that begin with `b` are cut: after `b` or inside it. -/
theorem cut_cases {p s b r : Octets} (h : p ++ s = b ++ r) :
    (∃ t, p = b ++ t ∧ r = t ++ s) ∨ ∃ u, u ≠ [] ∧ b = p ++ u := by
  obtain ⟨u, hb, hs⟩ | ⟨t, hp, hr⟩ := List.append_eq_append_iff.mp h
  · by_cases hu : u = []
    · refine .inl ⟨[], ?_, ?_⟩
      · rw [hb, hu, List.append_nil, List.append_nil]
      · rw [hs, hu, List.nil_append, List.nil_append]
    · exact .inr ⟨u, hu, hb⟩
  · exact .inl ⟨t, hp, hr⟩

theorem pow_width_pred_le {n : Nat} (hn : n ≠ 0) : 256 ^ (n.log2 / 8) ≤ n := by
  calc 256 ^ (n.log2 / 8) = 2 ^ (8 * (n.log2 / 8)) := (pow_mul 2 8 _).symm
    _ ≤ 2 ^ n.log2 := Nat.pow_le_pow_right (by decide) (Nat.mul_div_le _ _)
    _ ≤ n := Nat.log2_self_le hn

theorem lt_pow_width (n : Nat) : n < 256 ^ (n.log2 / 8 + 1) := by
  calc n < 2 ^ (n.log2 + 1) := Nat.lt_log2_self
    _ ≤ 2 ^ (8 * (n.log2 / 8 + 1)) := Nat.pow_le_pow_right (by decide) (by omega)
    _ = 256 ^ (n.log2 / 8 + 1) := pow_mul 2 8 _

theorem width_le_iff {w n : Nat} : width n ≤ w ↔ n < 256 ^ w := by
  by_cases hn : n = 0
  · subst hn
    simp [width]
  · rw [width, if_neg hn]
    constructor
    · intro h
      exact (lt_pow_width n).trans_le (Nat.pow_le_pow_right (by decide) h)
    · intro h
      by_contra hw
      have hle : 256 ^ w ≤ 256 ^ (n.log2 / 8) := Nat.pow_le_pow_right (by decide) (by omega)
      exact absurd (hle.trans (pow_width_pred_le hn)) (Nat.not_le.mpr h)

end Provenance.Octets
