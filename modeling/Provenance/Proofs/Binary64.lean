import Mathlib.Tactic.Ring
import Provenance.Binary64.Width

/-!
The patterns that a format packs fit its width and give back the fields they were packed from. What is widened from a
narrower format is narrowed again.
-/
namespace Provenance.Binary64.Format

variable {f : Format}

theorem pack_lt {s e m : Nat} (hs : s < 2) (he : e < 2 ^ f.exponent) (hm : m < 2 ^ f.fraction) :
    f.pack s e m < 2 ^ f.width := by
  have hsign : s * 2 ^ f.exponent + e + 1 ≤ 2 * 2 ^ f.exponent := by
    calc s * 2 ^ f.exponent + e + 1 ≤ s * 2 ^ f.exponent + 2 ^ f.exponent := by omega
      _ = (s + 1) * 2 ^ f.exponent := by ring
      _ ≤ 2 * 2 ^ f.exponent := Nat.mul_le_mul_right _ hs
  rw [pack, Nat.shiftLeft_eq, Nat.shiftLeft_eq]
  calc (s * 2 ^ f.exponent + e) * 2 ^ f.fraction + m
      < (s * 2 ^ f.exponent + e) * 2 ^ f.fraction + 2 ^ f.fraction := by omega
    _ = (s * 2 ^ f.exponent + e + 1) * 2 ^ f.fraction := by ring
    _ ≤ 2 * 2 ^ f.exponent * 2 ^ f.fraction := Nat.mul_le_mul_right _ hsign
    _ = 2 ^ f.width := by rw [width]; ring

theorem top_lt : f.top < 2 ^ f.exponent := by
  have hpos : 0 < 2 ^ f.exponent := Nat.two_pow_pos _
  rw [top, Nat.shiftLeft_eq]
  omega

theorem sign_lt (bits : Nat) : f.sign bits < 2 := Nat.mod_lt _ (by decide)

theorem mantissa_lt (bits : Nat) : f.mantissa bits < 2 ^ f.fraction := by
  rw [mantissa, Nat.shiftLeft_eq, Nat.one_mul]
  exact Nat.mod_lt _ (Nat.two_pow_pos _)

theorem cut_lt (hf : f.fraction ≤ double.fraction) (bits : Nat) : f.cut bits < 2 ^ f.width := by
  have hm : double.mantissa bits < 2 ^ double.fraction := mantissa_lt bits
  have hdown : double.mantissa bits >>> (double.fraction - f.fraction) < 2 ^ f.fraction := by
    rw [Nat.shiftRight_eq_div_pow]
    apply Nat.div_lt_of_lt_mul
    rwa [← pow_add, Nat.sub_add_cancel hf]
  unfold cut
  dsimp only
  split
  · exact pack_lt (sign_lt bits) top_lt hdown
  split
  · exact pack_lt (sign_lt bits) (lt_of_le_of_lt (Nat.min_le_right _ _) top_lt) hdown
  · next hlow =>
    -- the exponent is too low for the format, so at least one more bit than the difference of widths goes
    apply pack_lt (sign_lt bits) (Nat.two_pow_pos _)
    rw [Nat.shiftRight_eq_div_pow, Nat.shiftLeft_eq, Nat.one_mul]
    apply Nat.div_lt_of_lt_mul
    calc 2 ^ double.fraction + double.mantissa bits < 2 ^ (double.fraction + 1) := by rw [pow_succ]; omega
      _ ≤ 2 ^ (double.fraction - f.fraction + (double.bias - f.bias) + 1 - double.power bits + f.fraction) :=
        Nat.pow_le_pow_right (by decide) (by omega)
      _ = _ := pow_add _ _ _

theorem narrow?_lt (hf : f.fraction ≤ double.fraction) {bits n : Nat} (h : f.narrow? bits = some n) :
    n < 2 ^ f.width := by
  unfold narrow? at h
  split at h
  · cases h
    exact cut_lt hf bits
  · cases h

section Fields

variable {s e m : Nat}

theorem shiftRight_pack (hm : m < 2 ^ f.fraction) : f.pack s e m >>> f.fraction = s * 2 ^ f.exponent + e := by
  have hpos : 0 < 2 ^ f.fraction := Nat.two_pow_pos _
  rw [pack, Nat.shiftLeft_eq, Nat.shiftLeft_eq, Nat.shiftRight_eq_div_pow, Nat.mul_comm _ (2 ^ f.fraction),
    Nat.mul_add_div hpos, Nat.div_eq_of_lt hm, Nat.add_zero]

theorem mantissa_pack (hm : m < 2 ^ f.fraction) : f.mantissa (f.pack s e m) = m := by
  rw [mantissa, pack, Nat.shiftLeft_eq, Nat.shiftLeft_eq, Nat.shiftLeft_eq, Nat.one_mul, Nat.mul_add_mod_self_right,
    Nat.mod_eq_of_lt hm]

theorem power_pack (he : e < 2 ^ f.exponent) (hm : m < 2 ^ f.fraction) : f.power (f.pack s e m) = e := by
  rw [power, shiftRight_pack hm, Nat.shiftLeft_eq, Nat.one_mul, Nat.mul_add_mod_self_right, Nat.mod_eq_of_lt he]

theorem sign_pack (hs : s < 2) (he : e < 2 ^ f.exponent) (hm : m < 2 ^ f.fraction) : f.sign (f.pack s e m) = s := by
  have hpos : 0 < 2 ^ f.exponent := Nat.two_pow_pos _
  rw [sign, Nat.add_comm, Nat.shiftRight_add, shiftRight_pack hm, Nat.shiftRight_eq_div_pow,
    Nat.mul_comm s, Nat.mul_add_div hpos, Nat.div_eq_of_lt he, Nat.add_zero, Nat.mod_eq_of_lt hs]

end Fields

/-- The fields of a 64-bit pattern for those of a narrower one. -/
def spread (f : Format) (s e m : Nat) : Nat :=
  let up := double.fraction - f.fraction
  if e = f.top then
    double.pack s double.top (if m = 0 then 0 else m <<< up ||| 1 <<< (double.fraction - 1))
  else if e = 0 then
    if m = 0 then double.pack s 0 0
    else
      let k := m.log2
      double.pack s (k + double.bias + 1 - f.bias - f.fraction) ((m - 1 <<< k) <<< (double.fraction - k))
  else double.pack s (e + double.bias - f.bias) (m <<< up)

theorem widen_eq_spread (n : Nat) : f.widen n = f.spread (f.sign n) (f.power n) (f.mantissa n) := rfl

theorem widen_pack {s e m : Nat} (hs : s < 2) (he : e < 2 ^ f.exponent) (hm : m < 2 ^ f.fraction) :
    f.widen (f.pack s e m) = f.spread s e m := by
  rw [widen_eq_spread, sign_pack hs he hm, power_pack he hm, mantissa_pack hm]

/-- A format is so much narrower than the 64-bit one that its subnormal numbers are normal there. -/
structure Narrower (f : Format) : Prop where
  fraction_pos : 0 < f.fraction
  fraction_le : f.fraction ≤ double.fraction
  bias_le : f.bias + f.fraction ≤ double.bias
  top_pos : 0 < f.top
  top_le : f.top + double.bias - f.bias ≤ double.top

theorem narrower_half : half.Narrower := ⟨by decide, by decide, by decide, by decide, by decide⟩

theorem narrower_single : single.Narrower := ⟨by decide, by decide, by decide, by decide, by decide⟩

section Cut

variable {s e m : Nat}

theorem cut_pack (hs : s < 2) (he : e < 2 ^ double.exponent) (hm : m < 2 ^ double.fraction) :
    f.cut (double.pack s e m) =
      if e = double.top then f.pack s f.top (m >>> (double.fraction - f.fraction))
      else if double.bias - f.bias < e then
        f.pack s (min (e - (double.bias - f.bias)) f.top) (m >>> (double.fraction - f.fraction))
      else f.pack s 0 ((1 <<< double.fraction + m) >>>
        (double.fraction - f.fraction + (double.bias - f.bias) + 1 - e)) := by
  rw [cut, sign_pack hs he hm, power_pack he hm, mantissa_pack hm]

theorem shiftLeft_lt (hf : f.fraction ≤ double.fraction) (hm : m < 2 ^ f.fraction) :
    m <<< (double.fraction - f.fraction) < 2 ^ double.fraction := by
  rw [Nat.shiftLeft_eq]
  calc m * 2 ^ (double.fraction - f.fraction) < 2 ^ f.fraction * 2 ^ (double.fraction - f.fraction) :=
        Nat.mul_lt_mul_of_pos_right hm (Nat.two_pow_pos _)
    _ = 2 ^ double.fraction := by rw [← pow_add, Nat.add_sub_cancel' hf]

/-- The quiet bit is there after widening, and it is the only one that widening adds. -/
theorem quiet_eq (hf : f.Narrower) (m : Nat) :
    m <<< (double.fraction - f.fraction) ||| 1 <<< (double.fraction - 1) =
      (m ||| 1 <<< (f.fraction - 1)) <<< (double.fraction - f.fraction) := by
  have hsplit : double.fraction - 1 = f.fraction - 1 + (double.fraction - f.fraction) := by
    have := hf.fraction_pos
    have := hf.fraction_le
    omega
  rw [hsplit, Nat.shiftLeft_add, Nat.shiftLeft_or_distrib]

theorem widen_cut_top (hf : f.Narrower) (hs : s < 2) (hm : m < 2 ^ f.fraction) :
    f.widen (f.cut (f.spread s f.top m)) = f.spread s f.top m := by
  have htop : double.top < 2 ^ double.exponent := top_lt
  by_cases hz : m = 0
  · have hspread : f.spread s f.top m = double.pack s double.top 0 := by rw [spread, if_pos rfl, if_pos hz]
    rw [hspread, cut_pack hs htop (Nat.two_pow_pos _), if_pos rfl, Nat.zero_shiftRight,
      widen_pack hs top_lt (Nat.two_pow_pos _), ← hspread, hz]
  · let q := m ||| 1 <<< (f.fraction - 1)
    have hspread {n : Nat} (hn : n ≠ 0) (hq : n ||| 1 <<< (f.fraction - 1) = q) :
        f.spread s f.top n = double.pack s double.top (q <<< (double.fraction - f.fraction)) := by
      rw [spread, if_pos rfl, if_neg hn, quiet_eq hf, hq]
    have hbit : 1 <<< (f.fraction - 1) < 2 ^ f.fraction := by
      rw [Nat.shiftLeft_eq, Nat.one_mul]
      exact Nat.pow_lt_pow_right (by decide) (Nat.sub_lt hf.fraction_pos (by decide))
    have hq : q < 2 ^ f.fraction := Nat.or_lt_two_pow hm hbit
    have hq0 : q ≠ 0 := by
      have hle : m ≤ q := Nat.left_le_or
      omega
    have hqq : q ||| 1 <<< (f.fraction - 1) = q := by rw [Nat.or_assoc, Nat.or_self]
    rw [hspread hz rfl, cut_pack hs htop (shiftLeft_lt hf.fraction_le hq), if_pos rfl, Nat.shiftLeft_shiftRight,
      widen_pack hs top_lt hq, hspread hq0 hqq]

theorem two_pow_log2_mul (hk : m.log2 ≤ double.fraction) :
    2 ^ m.log2 * 2 ^ (double.fraction - m.log2) = 2 ^ double.fraction := by
  rw [← pow_add, Nat.add_sub_cancel' hk]

/-- What is below the leading bit of a subnormal number, moved up to where the leading bit goes without saying. -/
theorem subnormal_lt (hk : m.log2 ≤ double.fraction) :
    (m - 1 <<< m.log2) <<< (double.fraction - m.log2) < 2 ^ double.fraction := by
  have hhigh : m < 2 ^ (m.log2 + 1) := Nat.lt_log2_self
  rw [pow_succ] at hhigh
  have hpos : 0 < 2 ^ m.log2 := Nat.two_pow_pos _
  rw [Nat.shiftLeft_eq, Nat.shiftLeft_eq, Nat.one_mul, ← two_pow_log2_mul hk]
  exact Nat.mul_lt_mul_of_pos_right (by omega) (Nat.two_pow_pos _)

theorem cut_subnormal (hf : f.Narrower) (hs : s < 2) (hm : m < 2 ^ f.fraction) :
    f.cut (f.spread s 0 m) = f.pack s 0 m := by
  have htop : (0 : Nat) ≠ f.top := hf.top_pos.ne
  have hbias := hf.bias_le
  have hdouble : double.bias = 1023 ∧ double.top = 2047 ∧ double.fraction = 52 ∧ double.exponent = 11 :=
    ⟨rfl, rfl, rfl, rfl⟩
  have hle := hf.fraction_le
  have hpos := hf.fraction_pos
  by_cases hz : m = 0
  · have hspread : f.spread s 0 m = double.pack s 0 0 := by rw [spread, if_neg htop, if_pos rfl, if_pos hz]
    have hgone : (1 <<< double.fraction + 0) >>>
        (double.fraction - f.fraction + (double.bias - f.bias) + 1 - 0) = 0 := by
      rw [Nat.shiftRight_eq_div_pow, Nat.shiftLeft_eq, Nat.one_mul]
      apply Nat.div_eq_of_lt
      exact Nat.pow_lt_pow_right (by decide) (by omega)
    rw [hspread, cut_pack hs (Nat.two_pow_pos _) (Nat.two_pow_pos _), if_neg (by decide), if_neg (Nat.not_lt_zero _),
      hgone, hz]
  · have hk : m.log2 < f.fraction := (Nat.log2_lt hz).mpr hm
    have hlow : 2 ^ m.log2 ≤ m := Nat.log2_self_le hz
    have hin : m.log2 ≤ double.fraction := hk.le.trans hle
    have hspread : f.spread s 0 m = double.pack s (m.log2 + double.bias + 1 - f.bias - f.fraction)
        ((m - 1 <<< m.log2) <<< (double.fraction - m.log2)) := by
      rw [spread, if_neg htop, if_pos rfl, if_neg hz]
    have hwhole : 1 <<< double.fraction + (m - 1 <<< m.log2) <<< (double.fraction - m.log2) =
        m * 2 ^ (double.fraction - m.log2) := by
      rw [Nat.shiftLeft_eq, Nat.shiftLeft_eq, Nat.shiftLeft_eq, Nat.one_mul, Nat.one_mul,
        ← two_pow_log2_mul hin, ← Nat.add_mul, Nat.add_sub_cancel' hlow]
    have hdown : double.fraction - f.fraction + (double.bias - f.bias) + 1 -
        (m.log2 + double.bias + 1 - f.bias - f.fraction) = double.fraction - m.log2 := by
      omega
    have hpower : m.log2 + double.bias + 1 - f.bias - f.fraction < 2 ^ double.exponent := by
      rw [hdouble.2.2.2]
      omega
    rw [hspread, cut_pack hs hpower (subnormal_lt hin), if_neg (by omega), if_neg (by omega), hwhole, hdown,
      Nat.shiftRight_eq_div_pow, Nat.mul_div_cancel _ (Nat.two_pow_pos _)]

theorem cut_normal (hf : f.Narrower) (hs : s < 2) (he : 0 < e) (htop : e < f.top) (hm : m < 2 ^ f.fraction) :
    f.cut (f.spread s e m) = f.pack s e m := by
  have hbias := hf.bias_le
  have hle := hf.top_le
  have hdouble : double.bias = 1023 ∧ double.top = 2047 ∧ double.exponent = 11 := ⟨rfl, rfl, rfl⟩
  have hspread : f.spread s e m = double.pack s (e + double.bias - f.bias) (m <<< (double.fraction - f.fraction)) := by
    rw [spread, if_neg htop.ne, if_neg he.ne']
  have hpower : e + double.bias - f.bias < 2 ^ double.exponent := by
    rw [hdouble.2.2]
    omega
  have hmin : min (e + double.bias - f.bias - (double.bias - f.bias)) f.top = e := by omega
  rw [hspread, cut_pack hs hpower (shiftLeft_lt hf.fraction_le hm), if_neg (by omega), if_pos (by omega), hmin,
    Nat.shiftLeft_shiftRight]

end Cut

theorem power_lt (bits : Nat) : f.power bits < 2 ^ f.exponent := by
  rw [power, Nat.shiftLeft_eq, Nat.one_mul]
  exact Nat.mod_lt _ (Nat.two_pow_pos _)

theorem le_top_of_lt {e : Nat} (he : e < 2 ^ f.exponent) : e ≤ f.top := by
  rw [top, Nat.shiftLeft_eq, Nat.one_mul]
  omega

theorem widen_cut_widen (hf : f.Narrower) (n : Nat) : f.widen (f.cut (f.widen n)) = f.widen n := by
  have hs : f.sign n < 2 := sign_lt n
  have he : f.power n < 2 ^ f.exponent := power_lt n
  have hm : f.mantissa n < 2 ^ f.fraction := mantissa_lt n
  rw [widen_eq_spread n]
  obtain hlt | htop := (le_top_of_lt he).lt_or_eq
  · obtain hz | hpos := Nat.eq_zero_or_pos (f.power n)
    · rw [hz, cut_subnormal hf hs hm, widen_pack hs (Nat.two_pow_pos _) hm]
    · rw [cut_normal hf hs hpos hlt hm, widen_pack hs he hm]
  · rw [htop, widen_cut_top hf hs hm]

theorem spread_lt (hf : f.Narrower) {s e m : Nat} (hs : s < 2) (he : e ≤ f.top) (hm : m < 2 ^ f.fraction) :
    f.spread s e m < 2 ^ double.width := by
  have hdouble : double.bias = 1023 ∧ double.top = 2047 ∧ double.exponent = 11 := ⟨rfl, rfl, rfl⟩
  have hbias := hf.bias_le
  have htop := hf.top_le
  have hup := shiftLeft_lt hf.fraction_le hm
  unfold spread
  dsimp only
  split
  · apply pack_lt hs top_lt
    split
    · exact Nat.two_pow_pos _
    · exact Nat.or_lt_two_pow hup (by decide)
  split
  · split
    · exact pack_lt hs (Nat.two_pow_pos _) (Nat.two_pow_pos _)
    · next hz =>
      have hk : m.log2 < f.fraction := (Nat.log2_lt hz).mpr hm
      apply pack_lt hs _ (subnormal_lt (hk.le.trans hf.fraction_le))
      rw [hdouble.2.2]
      omega
  · apply pack_lt hs _ hup
    rw [hdouble.2.2]
    omega

theorem widen_lt (hf : f.Narrower) (n : Nat) : f.widen n < 2 ^ double.width := by
  rw [widen_eq_spread]
  exact spread_lt hf (sign_lt n) (le_top_of_lt (power_lt n)) (mantissa_lt n)

theorem narrow?_widen (hf : f.Narrower) (n : Nat) : ∃ k, f.narrow? (f.widen n) = some k :=
  ⟨_, if_pos (widen_cut_widen hf n)⟩

end Provenance.Binary64.Format
