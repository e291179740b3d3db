import Mathlib.Data.Set.Function
import Provenance.Proofs.Envelope.Binding
import Provenance.Proofs.Key.Matching

/-!
Framing of signatures: the two numbers of an ECDSA signature and the octet strings of twice the field's width are in
one-to-one correspondence, and whatever octets are given for a signature, comparing them has an answer as long as key
and algorithm fit each other.
-/
namespace Provenance

open Crypto (Group)

/-- A half is as many octets as the bits of the field need, and no more. -/
theorem Crypto.Group.degree_le_width (g : Group) : g.degree ≤ 8 * g.width ∧ 8 * g.width < g.degree + 8 := by
  rw [width]
  omega

/-- The numbers of the two halves of an octet string. -/
def halves (width : Nat) (b : Octets) : Nat × Nat := (Octets.toNat (b.take width), Octets.toNat (b.drop width))

variable {P : Provider} {a : Algorithm} {h : DigestAlgorithm} {k : NativeKey} {g : Group} {c : Curve} {b m : Octets}
  {w x y d r s : Nat}

section Halves

theorem two_pow_eq (w : Nat) : 2 ^ (8 * w) = 256 ^ w := pow_mul 2 8 w

theorem length_halves (w r s : Nat) : (Octets.ofNat w r ++ Octets.ofNat w s).length = 2 * w := by
  rw [List.length_append, Octets.length_ofNat, Octets.length_ofNat]
  omega

theorem splitHalves?_eq (w : Nat) (b : Octets) :
    splitHalves? w b = if b.length = 2 * w then some (halves w b) else none := rfl

theorem halves_ofNat (hr : r < 2 ^ (8 * w)) (hs : s < 2 ^ (8 * w)) :
    halves w (Octets.ofNat w r ++ Octets.ofNat w s) = (r, s) := by
  rw [two_pow_eq] at hr hs
  rw [halves, List.take_left' (Octets.length_ofNat w r), List.drop_left' (Octets.length_ofNat w r),
    Octets.toNat_ofNat hr, Octets.toNat_ofNat hs]

theorem halves_lt (hb : b.length = 2 * w) : (halves w b).1 < 2 ^ (8 * w) ∧ (halves w b).2 < 2 ^ (8 * w) := by
  have hfront : (b.take w).length = w := by
    rw [List.length_take]
    omega
  have hback : (b.drop w).length = w := by
    rw [List.length_drop]
    omega
  have hr := Octets.toNat_lt (b.take w)
  have hs := Octets.toNat_lt (b.drop w)
  rw [hfront, ← two_pow_eq] at hr
  rw [hback, ← two_pow_eq] at hs
  exact ⟨hr, hs⟩

theorem ofNat_halves (hb : b.length = 2 * w) :
    Octets.ofNat w (halves w b).1 ++ Octets.ofNat w (halves w b).2 = b := by
  have hfront : Octets.ofNat w (Octets.toNat (b.take w)) = b.take w := by
    have := Octets.ofNat_toNat (b.take w)
    rwa [List.length_take, Nat.min_eq_left (by omega)] at this
  have hback : Octets.ofNat w (Octets.toNat (b.drop w)) = b.drop w := by
    have := Octets.ofNat_toNat (b.drop w)
    rwa [List.length_drop, show b.length - w = w by omega] at this
  rw [halves, hfront, hback, List.take_append_drop]

/-- Different octets are different numbers, and all numbers that fit have octets. -/
theorem bijOn_halves (w : Nat) :
    Set.BijOn (halves w) {b | b.length = 2 * w} {n | n.1 < 2 ^ (8 * w) ∧ n.2 < 2 ^ (8 * w)} := by
  refine ⟨?_, ?_, ?_⟩
  · intro b hb
    exact halves_lt hb
  · intro b hb b' hb' heq
    rw [← ofNat_halves hb, heq, ofNat_halves hb']
  · rintro ⟨r, s⟩ ⟨hr, hs⟩
    exact ⟨_, length_halves w r s, halves_ofNat hr hs⟩

end Halves

section Comparing

theorem verify_point (ha : a.digest? = some h) :
    verify P (.point g x y) a m b =
      .ok (if b.length = 2 * g.width
        then (P.ecdsaVerify g x y h m (halves g.width b).1 (halves g.width b).2).getD false else false) := by
  simp only [verify, ha, splitHalves?_eq]
  by_cases hb : b.length = 2 * g.width
  · rw [if_pos hb, if_pos hb]
  · rw [if_neg hb, if_neg hb]

theorem verify_octets {e : EdwardsScheme} (hc : c.scheme? = some e) {key : Octets} :
    verify P (.octets c key) .eddsa m b = .ok ((P.eddsaVerify e key m b).getD false) := by
  simp only [verify, Algorithm.digest?, hc]

theorem verify_of_suits (hk : a.Suits k) : ∃ answer, verify P k a m b = .ok answer := by
  cases h : verify P k a m b with
  | ok answer => exact ⟨answer, rfl⟩
  | error d => exact absurd hk (verify_eq_error_iff.mp ⟨d, h⟩)

theorem verify_of_misfit (hk : ¬ a.Suits k) : verify P k a m b = a.misfit k.typeNumber := by
  obtain ⟨d, h⟩ : ∃ d, verify P k a m b = .error d := verify_eq_error_iff.mpr hk
  unfold verify at h ⊢
  split at h
  · split at h <;> cases h
  · split at h
    · cases h
    · rfl
  · rfl

end Comparing

section Signing

theorem sign_scalar_eq_ok_iff (ha : a.digest? = some h) :
    sign P (.scalar g d) a m = .ok b ↔ ∃ r s, P.ecdsaSign g d h m = some (r, s) ∧ r < 2 ^ (8 * g.width) ∧
      s < 2 ^ (8 * g.width) ∧ Octets.ofNat g.width r ++ Octets.ofNat g.width s = b := by
  simp only [sign, ha, two_pow_eq]
  cases hsig : P.ecdsaSign g d h m with
  | none => simp
  | some sig =>
    obtain ⟨r, s⟩ := sig
    simp only [joinHalves_eq_ok_iff, Option.some.injEq, Prod.mk.injEq]
    constructor
    · exact fun h => ⟨r, s, ⟨rfl, rfl⟩, h⟩
    · rintro ⟨_, _, ⟨rfl, rfl⟩, h⟩
      exact h

/-- Nothing is signed if there are no numbers or these do not fit. -/
theorem sign_scalar_eq_error_iff (ha : a.digest? = some h) :
    (∃ f, sign P (.scalar g d) a m = .error f) ↔
      ∀ r s, P.ecdsaSign g d h m = some (r, s) → ¬ (r < 2 ^ (8 * g.width) ∧ s < 2 ^ (8 * g.width)) := by
  constructor
  · rintro ⟨f, hf⟩ r s hsig ⟨hr, hs⟩
    cases hf.symm.trans ((sign_scalar_eq_ok_iff ha).mpr ⟨r, s, hsig, hr, hs, rfl⟩)
  · intro hno
    cases hsign : sign P (.scalar g d) a m with
    | error f => exact ⟨f, rfl⟩
    | ok b =>
      obtain ⟨r, s, hsig, hr, hs, -⟩ := (sign_scalar_eq_ok_iff ha).mp hsign
      exact absurd ⟨hr, hs⟩ (hno r s hsig)

end Signing

/-- On a curve over whatever field, a signature is both its numbers, each in as many octets as the field's bits need,
and verifies under the public half of the key if the provider takes the numbers for right. Octets that are given for one
are compared in any case if the algorithm fits the key, and only then: those of another length are wrong, all others
stand for one pair of numbers each, which the provider judges, and what it fails on is wrong. -/
theorem framing_lossless (P : Provider) :
    (∀ g : Group, g.degree ≤ 8 * g.width ∧ 8 * g.width < g.degree + 8) ∧
      (∀ g d a h m r s, a.digest? = some h → P.ecdsaSign g d h m = some (r, s) →
        r < 2 ^ (8 * g.width) → s < 2 ^ (8 * g.width) →
        ∃ b, sign P (.scalar g d) a m = .ok b ∧ b = Octets.ofNat g.width r ++ Octets.ofNat g.width s ∧
          b.length = 2 * g.width ∧ halves g.width b = (r, s) ∧
            (P.ecdsaVerify g (P.pointOf g d).1 (P.pointOf g d).2 h m r s = some true →
              verify P ((PrivateKey.scalar g d).native P) a m b = .ok true)) ∧
      (∀ g d a h m, a.digest? = some h → ((∃ f, sign P (.scalar g d) a m = .error f) ↔
        ∀ r s, P.ecdsaSign g d h m = some (r, s) → ¬ (r < 2 ^ (8 * g.width) ∧ s < 2 ^ (8 * g.width)))) ∧
      (∀ k a m b, (a.Suits k → ∃ answer, verify P k a m b = .ok answer) ∧
        (¬ a.Suits k → verify P k a m b = a.misfit k.typeNumber)) ∧
      (∀ g x y a h m b, a.digest? = some h → verify P (.point g x y) a m b =
        .ok (if b.length = 2 * g.width
          then (P.ecdsaVerify g x y h m (halves g.width b).1 (halves g.width b).2).getD false else false)) ∧
      (∀ w, Set.BijOn (halves w) {b | b.length = 2 * w} {n | n.1 < 2 ^ (8 * w) ∧ n.2 < 2 ^ (8 * w)}) ∧
      ∀ c e key m b, c.scheme? = some e →
        verify P (.octets c key) .eddsa m b = .ok ((P.eddsaVerify e key m b).getD false) := by
  refine ⟨Group.degree_le_width, ?_, ?_, ?_, ?_, bijOn_halves, ?_⟩
  · intro g d a h m r s ha hsig hr hs
    have hsign := (sign_scalar_eq_ok_iff ha).mpr ⟨r, s, hsig, hr, hs, rfl⟩
    refine ⟨_, hsign, rfl, length_halves _ _ _, halves_ofNat hr hs, ?_⟩
    intro haccept
    rw [PrivateKey.native, verify_point ha, if_pos (length_halves _ _ _), halves_ofNat hr hs, haccept]
    rfl
  · intro g d a h m ha
    exact sign_scalar_eq_error_iff ha
  · intro k a m b
    exact ⟨verify_of_suits, verify_of_misfit⟩
  · intro g x y a h m b ha
    exact verify_point ha
  · intro c e key m b he
    exact verify_octets he

/-- Numbers that an octet less than their width is enough for. -/
def shortR : Nat :=
  0x58a8ba6f71cbf128db19846841c00bec3f067c08d8b5f10006c365c68df6288a * 2 ^ 264 +
    0xe6df8a065e726d66e3a94585f5d69869366a86f10cd13813a282f165991d3f78cd

def shortS : Nat :=
  0x3242c7d93b625535f97755154ec177b5c1b1aa7d0b7302af90f604ac47ab7bf7 * 2 ^ 264 +
    0x7bce68eb46d9b71979627741637f57f49839548470ab090bf363efb0d8e897f760

/-- A provider whose secret is 1, so that the public half is the base point, and that repeats the one signature it was
told of and fails on all others. -/
def Provider.ofShort : Provider :=
  { Provider.recorded (fun _ => []) [] with
    pointOf := fun _ _ => (Group.p521Params.gx, Group.p521Params.gy)
    ecdsaSign := fun g d h m => if g = .p521 ∧ d = 1 ∧ h = .sha512 ∧ m = [0] then some (shortR, shortS) else none
    ecdsaVerify := fun g x y h m r s =>
      if g = .p521 ∧ x = Group.p521Params.gx ∧ y = Group.p521Params.gy ∧ h = .sha512 ∧ m = [0] ∧ r = shortR ∧
        s = shortS then some true else none }

theorem ecdsaSign_ofShort : Provider.ofShort.ecdsaSign .p521 1 .sha512 [0] = some (shortR, shortS) := by
  simp [Provider.ofShort]

theorem ecdsaVerify_ofShort : Provider.ofShort.ecdsaVerify .p521 (Provider.ofShort.pointOf .p521 1).1
    (Provider.ofShort.pointOf .p521 1).2 .sha512 [0] shortR shortS = some true := by
  simp [Provider.ofShort]

/-- The signature is written with the zeros in front of both numbers; without them it is none, and with the numbers
exchanged it is one that the provider fails on. -/
theorem framing_lossless_short :
    ∃ b, sign Provider.ofShort (.scalar .p521 1) .es512 [0] = .ok b ∧ b.length = 132 ∧ b.head? = some 0 ∧
      (b.drop 66).head? = some 0 ∧
      verify Provider.ofShort ((PrivateKey.scalar .p521 1).native Provider.ofShort) .es512 [0] b = .ok true ∧
      verify Provider.ofShort ((PrivateKey.scalar .p521 1).native Provider.ofShort) .es512 [0] b.tail = .ok false ∧
      verify Provider.ofShort ((PrivateKey.scalar .p521 1).native Provider.ofShort) .es512 [0]
        (b.drop 66 ++ b.take 66) = .ok false := by
  obtain ⟨-, hsign, -, -, hverify, -⟩ := framing_lossless Provider.ofShort
  have hr : shortR < 2 ^ (8 * Group.p521.width) := by decide +kernel
  have hs : shortS < 2 ^ (8 * Group.p521.width) := by decide +kernel
  obtain ⟨b, hb, hjoin, hlen, -, hok⟩ := hsign .p521 1 .es512 .sha512 [0] shortR shortS rfl ecdsaSign_ofShort hr hs
  have hwidth : Group.p521.width = 66 := rfl
  rw [hwidth] at hlen hr hs
  have htail : b.tail.length = 131 := by rw [List.length_tail, hlen]
  have hswapped : b.drop 66 ++ b.take 66 = Octets.ofNat 66 shortS ++ Octets.ofNat 66 shortR := by
    rw [hjoin, hwidth, List.drop_left' (Octets.length_ofNat _ _), List.take_left' (Octets.length_ofNat _ _)]
  refine ⟨b, hb, hlen, ?_, ?_, hok ecdsaVerify_ofShort, ?_, ?_⟩
  · rw [hjoin]
    decide +kernel
  · rw [hjoin]
    decide +kernel
  · rw [PrivateKey.native, hverify _ _ _ .es512 .sha512 _ _ rfl, if_neg (by omega)]
  · rw [hswapped, PrivateKey.native, hverify _ _ _ .es512 .sha512 _ _ rfl, hwidth, if_pos (length_halves _ _ _),
      halves_ofNat hs hr]
    have hne : shortS ≠ shortR := by decide +kernel
    simp [Provider.ofShort, hne]

end Provenance
