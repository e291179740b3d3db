import Provenance.Proofs.Cbor.Magnitudes
import Provenance.Proofs.IssuerList.RoundTrip

/-!
Serial numbers: what an entry writes of its certificate, and that a reader of the entry finds the serial number of the
certificate in it.
-/
namespace Provenance

namespace Octets

/-- The integer that octets are as two's complement, most significant octet first. -/
def toInt : Octets → Int
  | [] => 0
  | x :: b => if x < 128 then toNat (x :: b) else toNat (x :: b) - 256 ^ (b.length + 1)

theorem toInt_of_nonneg {b : Octets} (h : 0 ≤ b.toInt) : b.toInt = toNat b := by
  cases b with
  | nil => rfl
  | cons x b =>
    by_cases hx : x < 128
    · rw [toInt, if_pos hx]
    · -- The number that octets spell is less than the power that their sign takes off it.
      rw [toInt, if_neg hx] at h
      have hlt : (toNat (x :: b) : Int) < 256 ^ (b.length + 1) := by exact_mod_cast toNat_lt (x :: b)
      exact absurd h (by omega)

end Octets

open Cbor
open Octets (IsMagnitude isMagnitude_stripZeros isMagnitude_zero_iff existsUnique_isMagnitude)

namespace IssuerEntry

theorem text?_written (e : IssuerEntry) (c : Certificate) (ski : Octets) :
    (e.written c ski).text? "certificate" = some (.bytes e.certificate) ∧
      (e.written c ski).text? "serialNumber" = some (.ofMagnitude (Octets.stripZeros c.serial)) ∧
      (e.written c ski).text? "ski" = some (.bytes ski) := by
  simp [written, Entries.text?, Item.text?]

theorem isMagnitude_serial {c : Certificate} (h : 0 ≤ c.serial.toInt) :
    (Octets.stripZeros c.serial).IsMagnitude c.serial.toInt.toNat := by
  rw [Octets.toInt_of_nonneg h, Int.toNat_natCast]
  exact isMagnitude_stripZeros c.serial

theorem bignum_ofMagnitude_stripZeros (name : String) (b : Octets) :
    Field.bignum name (.ofMagnitude (Octets.stripZeros b)) = .ok (Octets.stripZeros b) := by
  have hnumber := isMagnitude_stripZeros b
  exact Field.bignum_eq_ok_iff.mpr ⟨_, congrArg some hnumber.1, hnumber⟩

/-- A number is read as its only octets without a leading zero, whichever form states it, and what states none is of
another type. An entry writes the serial number of its certificate as these, beside its key identifier and the octets
that it was read from. -/
theorem serial_canonical :
    (∀ n, ∃! b : Octets, b.IsMagnitude n) ∧ (∀ b : Octets, b.IsMagnitude 0 ↔ b = []) ∧
      (∀ name x b, Field.bignum name x = .ok b ↔ ∃ n, x.magnitude? = some n ∧ b.IsMagnitude n) ∧
      (∀ name name' x y a b, Field.bignum name x = .ok a → Field.bignum name' y = .ok b →
        (a = b ↔ x.magnitude? = y.magnitude?)) ∧
      (∀ name x, x.magnitude? = none →
        ∃ shape : String, Field.bignum name x = .error (.mistyped s!"{name} MUST be {shape}")) ∧
      ∀ e x, toItem e = .ok x → ∃ (c : Certificate) (es : Entries) (s : Item) (b ski : Octets),
        Certificate.ofDer e.certificate = .ok c ∧ x = .map es ∧
        (es.text? "serialNumber" = some s ∧ (∀ name, Field.bignum name s = .ok b) ∧
          b.IsMagnitude (Octets.toNat c.serial) ∧ (0 ≤ c.serial.toInt → b.IsMagnitude c.serial.toInt.toNat)) ∧
        (c.ski? = some ski ∧ es.text? "ski" = some (.bytes ski)) ∧
        c.der = e.certificate ∧ es.text? "certificate" = some (.bytes c.der) := by
  refine ⟨existsUnique_isMagnitude, fun _ => isMagnitude_zero_iff, fun _ _ _ => Field.bignum_eq_ok_iff,
    fun _ _ _ _ _ _ => Field.bignum_eq_iff, fun name _ => Field.bignum_of_not_magnitude name, ?_⟩
  intro e x h
  obtain ⟨c, ski, hc, hski, rfl⟩ := toItem_eq_ok_iff.mp h
  have hder := Certificate.der_of_ofDer hc
  obtain ⟨hcertificate, hserial, hwritten⟩ := text?_written e c ski
  refine ⟨c, _, _, Octets.stripZeros c.serial, ski, hc, rfl,
    ⟨hserial, ?_, isMagnitude_stripZeros _, isMagnitude_serial⟩, ⟨hski, hwritten⟩, hder, ?_⟩
  · intro name
    exact bignum_ofMagnitude_stripZeros name _
  · rw [hder]
    exact hcertificate

/-- The sample certificate with the serial number 128, whose octets begin with that of its sign. -/
def positiveSerial : Octets :=
  [0x30, 0x81, 0xbc, 0x30, 0x70, 0xa0, 0x03, 0x02, 0x01, 0x02, 0x02, 0x02, 0x00, 0x80] ++
    SignedIssuerList.sampleCertificate.drop 13

theorem serial_canonical_positive :
    ∃ c es s, Certificate.ofDer positiveSerial = .ok c ∧ c.serial = [0, 0x80] ∧
      toItem ⟨positiveSerial, ∅, none⟩ = .ok (.map es) ∧ Entries.text? es "serialNumber" = some s ∧
      ∀ name, Field.bignum name s = .ok [0x80] := by
  have hread : (toItem ⟨positiveSerial, ∅, none⟩).isOk ∧
      (Certificate.ofDer positiveSerial).toOption.map Certificate.serial = some [0, 0x80] := by decide +kernel
  obtain ⟨hok, hserial⟩ := hread
  obtain ⟨c, hc, hserial⟩ := Option.map_eq_some_iff.mp hserial
  cases hx : toItem ⟨positiveSerial, ∅, none⟩ with
  | error e =>
    rw [hx] at hok
    cases hok
  | ok x =>
    obtain ⟨-, -, -, -, -, hwrites⟩ := serial_canonical
    obtain ⟨d, es, s, b, ski, hd, rfl, ⟨hs, hb, -, hmagnitude⟩, -⟩ := hwrites _ x hx
    obtain rfl : c = d := Except.ok.inj ((toOption_eq_some_iff.mp hc).symm.trans hd)
    rw [hserial] at hmagnitude
    obtain rfl : b = [0x80] := (hmagnitude (by decide)).unique ⟨by decide, by decide⟩
    exact ⟨c, es, s, hd, hserial, rfl, hs, hb⟩

end IssuerEntry

end Provenance
