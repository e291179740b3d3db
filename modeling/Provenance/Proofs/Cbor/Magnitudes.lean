import Provenance.Proofs.Octets
import Provenance.Proofs.Cbor.Fields

/-!
Magnitudes: every number has one octet string without a leading zero, and a field that holds a number is read as it,
whether the number stands in a string with zeros in front or in an integer of its own.
-/
namespace Provenance

namespace Octets

/-- The octets of a number without a zero in front. -/
def IsMagnitude (b : Octets) (n : Nat) : Prop := toNat b = n ∧ b.head? ≠ some 0

variable {a b : Octets} {n : Nat}

theorem toNat_zero_cons (b : Octets) : toNat (0 :: b) = toNat b := by
  rw [toNat_cons, UInt8.toNat_zero, Nat.zero_mul, Nat.zero_add]

theorem stripZeros_cons (x : UInt8) (b : Octets) : stripZeros (x :: b) = if x = 0 then stripZeros b else x :: b := by
  simp [stripZeros, List.dropWhile_cons]

theorem isMagnitude_stripZeros (b : Octets) : (stripZeros b).IsMagnitude (toNat b) := by
  induction b with
  | nil => exact ⟨rfl, nofun⟩
  | cons x b ih =>
    rw [stripZeros_cons]
    by_cases hx : x = 0
    · rw [if_pos hx, hx, toNat_zero_cons]
      exact ih
    · rw [if_neg hx]
      exact ⟨rfl, by simpa using hx⟩

theorem pow_length_le_toNat {x : UInt8} (hx : x ≠ 0) (b : Octets) : 256 ^ b.length ≤ toNat (x :: b) := by
  have hpos : 0 < x.toNat := Nat.pos_of_ne_zero fun h => hx (UInt8.toNat_inj.mp h)
  rw [toNat_cons]
  calc 256 ^ b.length ≤ x.toNat * 256 ^ b.length := Nat.le_mul_of_pos_left _ hpos
    _ ≤ x.toNat * 256 ^ b.length + toNat b := Nat.le_add_right _ _

/-- Nothing shorter spells the number. -/
theorem IsMagnitude.length_le (h : a.IsMagnitude n) (hb : toNat b = n) : a.length ≤ b.length := by
  obtain ⟨ha, hhead⟩ := h
  cases a with
  | nil => exact Nat.zero_le _
  | cons x a =>
    have hx : x ≠ 0 := by simpa using hhead
    have hlt : 256 ^ a.length < 256 ^ b.length := by
      calc 256 ^ a.length ≤ toNat (x :: a) := pow_length_le_toNat hx a
        _ = toNat b := ha.trans hb.symm
        _ < 256 ^ b.length := toNat_lt b
    exact (Nat.pow_lt_pow_iff_right (by decide)).mp hlt

theorem IsMagnitude.unique (ha : a.IsMagnitude n) (hb : b.IsMagnitude n) : a = b :=
  toNat_inj (Nat.le_antisymm (ha.length_le hb.1) (hb.length_le ha.1)) (ha.1.trans hb.1.symm)

theorem isMagnitude_zero_iff : b.IsMagnitude 0 ↔ b = [] := by
  have hnil : IsMagnitude [] 0 := ⟨rfl, nofun⟩
  constructor
  · intro h
    exact h.unique hnil
  · rintro rfl
    exact hnil

theorem isMagnitude_minimal (n : Nat) : (minimal n).IsMagnitude n := by
  by_cases hn : n = 0
  · subst hn
    exact isMagnitude_zero_iff.mpr rfl
  · rw [minimal, width, if_neg hn]
    have hspell := toNat_ofNat (lt_pow_width n)
    refine ⟨hspell, ?_⟩
    intro hhead
    obtain ⟨b, hb⟩ := List.head?_eq_some_iff.mp hhead
    -- With a zero in front one octet less would be enough, and it is not.
    have hlen : b.length = n.log2 / 8 := by
      have h := congrArg List.length hb
      rwa [length_ofNat, List.length_cons, Nat.add_right_cancel_iff, eq_comm] at h
    have hlt := toNat_lt b
    rw [hb, toNat_zero_cons] at hspell
    rw [hspell, hlen] at hlt
    exact absurd (pow_width_pred_le hn) (Nat.not_le.mpr hlt)

theorem existsUnique_isMagnitude (n : Nat) : ∃! b : Octets, b.IsMagnitude n :=
  ⟨minimal n, isMagnitude_minimal n, fun _ hb => hb.unique (isMagnitude_minimal n)⟩

end Octets

namespace Cbor

/-- The number that an item states where a magnitude is read: that of a tagged string or that of an integer. -/
def Item.magnitude? : Item → Option Nat
  | tag 2 (bytes b) => some (Octets.toNat b)
  | unsigned n => some n.toNat
  | _ => none

namespace Field

open Octets (IsMagnitude isMagnitude_stripZeros isMagnitude_minimal)

variable {name name' : String} {x y : Item} {a b : Octets} {n : Nat}

theorem bignum_of_magnitude? (name : String) (h : x.magnitude? = some n) :
    ∃ b, bignum name x = .ok b ∧ b.IsMagnitude n := by
  unfold Item.magnitude? at h
  split at h
  · cases h
    exact ⟨_, rfl, isMagnitude_stripZeros _⟩
  · cases h
    exact ⟨_, rfl, isMagnitude_minimal _⟩
  · cases h

/-- What states no magnitude is of another type, and the fault says so of the field. -/
theorem bignum_of_not_magnitude (name : String) (h : x.magnitude? = none) :
    ∃ shape : String, bignum name x = .error (.mistyped s!"{name} MUST be {shape}") := by
  unfold bignum
  split
  · next y =>
    refine ⟨"bstr", ?_⟩
    cases y with
    | bytes b => cases h
    | _ => rfl
  · cases h
  · exact ⟨_, rfl⟩
  · exact ⟨_, rfl⟩

theorem bignum_eq_ok_iff : bignum name x = .ok b ↔ ∃ n, x.magnitude? = some n ∧ b.IsMagnitude n := by
  cases hx : x.magnitude? with
  | none =>
    obtain ⟨shape, herror⟩ := bignum_of_not_magnitude name hx
    rw [herror]
    exact ⟨nofun, nofun⟩
  | some n =>
    obtain ⟨a, hok, ha⟩ := bignum_of_magnitude? name hx
    rw [hok]
    constructor
    · rintro ⟨⟩
      exact ⟨n, rfl, ha⟩
    · rintro ⟨_, ⟨⟩, hb⟩
      rw [ha.unique hb]

/-- Two fields are read alike exactly if they state one number. -/
theorem bignum_eq_iff (hx : bignum name x = .ok a) (hy : bignum name' y = .ok b) :
    a = b ↔ x.magnitude? = y.magnitude? := by
  obtain ⟨m, hm, ha⟩ := bignum_eq_ok_iff.mp hx
  obtain ⟨n, hn, hb⟩ := bignum_eq_ok_iff.mp hy
  rw [hm, hn, Option.some.injEq]
  constructor
  · rintro rfl
    exact ha.1.symm.trans hb.1
  · rintro rfl
    exact ha.unique hb

end Field

end Cbor

end Provenance
