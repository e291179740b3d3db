import Provenance.Octets

/-!
Base64: six bits to a character, with one or two `=` where the last group holds less than three octets.
-/
namespace Provenance.Text.Base64

def value? (x : UInt8) : Option Nat :=
  if 0x41 ≤ x ∧ x ≤ 0x5a then some (x.toNat - 0x41)
  else if 0x61 ≤ x ∧ x ≤ 0x7a then some (x.toNat - 0x61 + 26)
  else if 0x30 ≤ x ∧ x ≤ 0x39 then some (x.toNat - 0x30 + 52)
  else if x = 0x2b then some 62
  else if x = 0x2f then some 63
  else none

def isBlank (x : UInt8) : Bool := x = 0x20 ∨ x = 0x09 ∨ x = 0x0a ∨ x = 0x0d

/-- Bits beyond the last octet are dropped. -/
def groups? : Octets → Option Octets
  | [] => some []
  | [a, b, 0x3d, 0x3d] => do
    let n := 64 * (← value? a) + (← value? b)
    return Octets.ofNat 1 (n / 16)
  | [a, b, c, 0x3d] => do
    let n := 64 * (64 * (← value? a) + (← value? b)) + (← value? c)
    return Octets.ofNat 2 (n / 4)
  | a :: b :: c :: d :: r => do
    let n := 64 * (64 * (64 * (← value? a) + (← value? b)) + (← value? c)) + (← value? d)
    let rest ← groups? r
    return Octets.ofNat 3 n ++ rest
  | _ => none

/-- The octets of a text, which ends where a hyphen stands; blanks do not count. -/
def decode? (b : Octets) : Option Octets := groups? ((b.takeWhile (· ≠ 0x2d)).filter fun x => !isBlank x)

end Provenance.Text.Base64
