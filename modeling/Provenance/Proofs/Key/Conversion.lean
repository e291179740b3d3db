import Mathlib.Data.Nat.ModEq
import Provenance.Proofs.Key.Framing
import Provenance.Proofs.Key.Maps

/-!
Keys in the form a provider works with. Coordinates go there as numbers and come back in the width of the curve, so a
key that was in that width is got back, leading zeros included, and any other comes back in it.
-/
namespace Provenance

open Crypto (Group)

/-- The coordinates are below the field's prime and satisfy the equation of the curve. -/
def Crypto.Group.HasPoint (g : Group) (x y : Nat) : Prop :=
  ∃ w, g.params? = some w ∧ x < w.p ∧ y < w.p ∧ y ^ 2 ≡ x ^ 3 + w.a * x + w.b [MOD w.p]

/-- The provider takes the points of the curves that keys may name, and no other coordinates. -/
def Provider.AcceptsPoints (P : Provider) : Prop :=
  ∀ c g x y, Curve.group? c = some g → (P.onCurve g x y = true ↔ g.HasPoint x y)

theorem Crypto.Weierstrass.onCurve_iff {w : Weierstrass} {x y : Nat} :
    w.onCurve x y = true ↔ x < w.p ∧ y < w.p ∧ y ^ 2 ≡ x ^ 3 + w.a * x + w.b [MOD w.p] := by
  have hcube : x * x * x = x ^ 3 := by rw [pow_succ, pow_two]
  rw [onCurve, decide_eq_true_iff, hcube, ← pow_two]
  rfl

theorem acceptsPoints_standard : Provider.standard.AcceptsPoints := by
  intro c g x y _
  change g.params?.any (fun w => w.onCurve x y) = true ↔ _
  simp only [Option.any_eq_true, Crypto.Weierstrass.onCurve_iff, Group.HasPoint]

theorem Crypto.Group.prime_le {g : Group} {w : Crypto.Weierstrass} (h : g.params? = some w) : w.p ≤ 2 ^ g.degree := by
  cases g <;> cases h <;> decide +kernel

theorem Crypto.Group.lt_of_hasPoint {g : Group} {x y : Nat} (h : g.HasPoint x y) :
    x < 256 ^ g.width ∧ y < 256 ^ g.width := by
  obtain ⟨w, hw, hx, hy, -⟩ := h
  have hp : w.p ≤ 256 ^ g.width := by
    calc w.p ≤ 2 ^ g.degree := prime_le hw
      _ ≤ 2 ^ (8 * g.width) := Nat.pow_le_pow_right (by decide) g.degree_le_width.1
      _ = 256 ^ g.width := two_pow_eq g.width
  exact ⟨hx.trans_le hp, hy.trans_le hp⟩

namespace PublicKey

variable {P : Provider} {k : PublicKey} {n : NativeKey}

def coordinates : PublicKey → List Octets
  | affine _ x y => [x, y]
  | single _ x => [x]

def numbers (k : PublicKey) : List Nat := k.coordinates.map Octets.toNat

/-- There are as many coordinates as keys of the curve have. -/
def SuitsCurve : PublicKey → Prop
  | affine c _ _ => c ∉ Curve.singleCoordinate
  | single c _ => c ∈ Curve.singleCoordinate

/-- Two coordinates are a point of the curve's group; a single one is as long as the curve's keys are. -/
def OnCurve : PublicKey → Prop
  | affine c x y => ∀ g, c.group? = some g → g.HasPoint (Octets.toNat x) (Octets.toNat y)
  | single c x => x.length = c.size

end PublicKey

theorem Curve.exists_group?_iff {c : Curve} : (∃ g, c.group? = some g) ↔ c ∉ singleCoordinate := by
  rw [← isOkp_iff, isOkp, Option.isNone_iff_eq_none, ← ne_eq, Option.ne_none_iff_exists']

namespace PublicKey

variable {P : Provider} {k : PublicKey} {n : NativeKey}

theorem native_affine_eq_ok_iff (hP : P.AcceptsPoints) {c : Curve} {x y : Octets} :
    (affine c x y).native P = .ok n ↔ ∃ g, c.group? = some g ∧ g.HasPoint (Octets.toNat x) (Octets.toNat y) ∧
      .point g (Octets.toNat x) (Octets.toNat y) = n := by
  cases hg : c.group? with
  | none => simp only [native, hg, reduceCtorEq, false_and, exists_false]
  | some g =>
    simp only [native, hg, Option.some.injEq, exists_eq_left', ← hP c g _ _ hg]
    split
    · next hpoint => simp only [hpoint, true_and, Except.ok.injEq]
    · next hpoint => simp only [hpoint, false_and, reduceCtorEq]

theorem native_single_eq_ok_iff {c : Curve} {x : Octets} :
    (single c x).native P = .ok n ↔ (single c x).WellFormed ∧ .octets c x = n := by
  rw [native, WellFormed, ← Curve.isOkp_iff]
  split
  · next hfits => simp only [hfits, and_self, true_and, Except.ok.injEq]
  · next hfits => simp only [hfits, false_and, reduceCtorEq]

theorem exists_native_iff (hP : P.AcceptsPoints) : (∃ n, k.native P = .ok n) ↔ k.SuitsCurve ∧ k.OnCurve := by
  cases k with
  | affine c x y =>
    simp only [native_affine_eq_ok_iff hP, SuitsCurve, OnCurve, ← Curve.exists_group?_iff]
    constructor
    · rintro ⟨_, g, hg, hpoint, -⟩
      exact ⟨⟨g, hg⟩, fun g' hg' => Option.some_inj.mp (hg.symm.trans hg') ▸ hpoint⟩
    · rintro ⟨⟨g, hg⟩, hpoint⟩
      exact ⟨_, g, hg, hpoint g hg, rfl⟩
  | single c x =>
    simp only [native_single_eq_ok_iff, WellFormed, SuitsCurve, OnCurve, exists_and_left, exists_eq', and_true]

/-- Of the keys with the sizes of a curve, no two have the same numbers. -/
theorem eq_of_numbers {k' : PublicKey} (hk : k.WellFormed) (hk' : k'.WellFormed) (hc : k'.curve = k.curve)
    (hn : k'.numbers = k.numbers) : k' = k := by
  cases k with
  | affine c x y =>
    cases k' with
    | affine c' x' y' =>
      obtain rfl : c' = c := hc
      simp only [numbers, coordinates, List.map_cons, List.map_nil, List.cons.injEq, and_true] at hn
      rw [Octets.toNat_inj (hk'.2.1.trans hk.2.1.symm) hn.1, Octets.toNat_inj (hk'.2.2.trans hk.2.2.symm) hn.2]
    | single c' x' =>
      obtain rfl : c' = c := hc
      exact absurd hk'.1 hk.1
  | single c x =>
    cases k' with
    | affine c' x' y' =>
      obtain rfl : c' = c := hc
      exact absurd hk.1 hk'.1
    | single c' x' =>
      obtain rfl : c' = c := hc
      simp only [numbers, coordinates, List.map_cons, List.map_nil, List.cons.injEq, and_true] at hn
      rw [Octets.toNat_inj (hk'.2.trans hk.2.symm) hn]

theorem exists_ofNative (hP : P.AcceptsPoints) (h : k.native P = .ok n) :
    ∃ k', ofNative n = .ok k' ∧ k'.curve = k.curve ∧ k'.WellFormed ∧ k'.numbers = k.numbers := by
  cases k with
  | affine c x y =>
    obtain ⟨g, hg, hpoint, rfl⟩ := (native_affine_eq_ok_iff hP).mp h
    obtain ⟨hx, hy⟩ := Group.lt_of_hasPoint hpoint
    rw [← Curve.size_eq_width hg] at hx hy
    refine ⟨_, ofNative_point_eq_ok_iff.mpr ⟨c, hg, hx, hy, rfl⟩, rfl, ?_, ?_⟩
    · exact ⟨Curve.exists_group?_iff.mp ⟨g, hg⟩, Octets.length_ofNat _ _, Octets.length_ofNat _ _⟩
    · simp only [numbers, coordinates, List.map_cons, List.map_nil, Octets.toNat_ofNat hx, Octets.toNat_ofNat hy]
  | single c x =>
    obtain ⟨hk, rfl⟩ := native_single_eq_ok_iff.mp h
    exact ⟨_, okp_eq_ok_iff_wellFormed.mpr ⟨hk, rfl⟩, rfl, hk, rfl⟩

/-- A key is converted exactly if it has the coordinates of its curve and they are a point of it, and then it comes back
well formed, on the same curve and with the same numbers. It comes back unchanged exactly if it was well formed. -/
theorem native_lossless {P : Provider} (hP : P.AcceptsPoints) (k : PublicKey) :
    (∀ n, k.native P = .ok n → ∃ k', ofNative n = .ok k' ∧ k'.curve = k.curve ∧ k'.WellFormed ∧ k'.numbers = k.numbers ∧
      (k' = k ↔ k.WellFormed)) ∧
      ((∃ n, k.native P = .ok n) ↔ k.SuitsCurve ∧ k.OnCurve) := by
  refine ⟨?_, exists_native_iff hP⟩
  intro n hn
  obtain ⟨k', hk', hc, hwell, hnumbers⟩ := exists_ofNative hP hn
  refine ⟨k', hk', hc, hwell, hnumbers, ?_⟩
  constructor
  · rintro rfl
    exact hwell
  · intro hk
    exact eq_of_numbers hk hwell hc hnumbers

/-- The base point of a curve where a whole octet of the first coordinate is zero, which is left out. -/
def narrowKey : PublicKey :=
  .affine .p521 (Octets.ofNat 65 Group.p521Params.gx) (Octets.ofNat 66 Group.p521Params.gy)

theorem native_lossless_narrowKey :
    Provider.standard.AcceptsPoints ∧ ∃ n k', narrowKey.native .standard = .ok n ∧ ofNative n = .ok k' ∧
      k'.WellFormed ∧ k'.numbers = narrowKey.numbers ∧ k' ≠ narrowKey := by
  obtain ⟨hback, hexists⟩ := native_lossless acceptsPoints_standard narrowKey
  have hpoint : Group.p521.HasPoint Group.p521Params.gx Group.p521Params.gy :=
    ⟨_, rfl, by decide +kernel⟩
  have hon : narrowKey.OnCurve := by
    rintro g ⟨⟩
    have hx : Octets.toNat (Octets.ofNat 65 Group.p521Params.gx) = Group.p521Params.gx := by decide +kernel
    have hy : Octets.toNat (Octets.ofNat 66 Group.p521Params.gy) = Group.p521Params.gy := by decide +kernel
    rw [hx, hy]
    exact hpoint
  have hsuits : narrowKey.SuitsCurve := by
    change Curve.p521 ∉ Curve.singleCoordinate
    decide
  obtain ⟨n, hn⟩ := hexists.mpr ⟨hsuits, hon⟩
  obtain ⟨k', hk', -, hwell, hnumbers, hsame⟩ := hback n hn
  refine ⟨acceptsPoints_standard, n, k', hn, hk', hwell, hnumbers, ?_⟩
  intro h
  have hlen : (Octets.ofNat 65 Group.p521Params.gx).length = 66 := (hsame.mp h).2.1
  rw [Octets.length_ofNat] at hlen
  cases hlen

end PublicKey

end Provenance
