/-!
Decimal numbers in fields of a fixed width.
-/
namespace Provenance.Text

def digit (n : Nat) : Char := Char.ofNat (48 + n % 10)

def tenTo : (n : Nat) → Nat
  | 0 => 1
  | n + 1 => 10 * tenTo n

def fixed : (width : Nat) → (n : Nat) → List Char
  | 0, _ => []
  | w + 1, n => digit (n / tenTo w) :: fixed w n

def padded (width n : Nat) : List Char :=
  if n < tenTo width then fixed width n else Nat.toDigits 10 n

def digitValue? (c : Char) : Option Nat := if '0' ≤ c ∧ c ≤ '9' then some (c.toNat - 48) else none

def numberFrom? (n : Nat) : List Char → Option Nat
  | [] => some n
  | c :: r => (digitValue? c).bind fun d => numberFrom? (10 * n + d) r

def number? (cs : List Char) : Option Nat := numberFrom? 0 cs

def isDigit (c : Char) : Bool := (digitValue? c).isSome

def trimZeros (cs : List Char) : List Char := (cs.reverse.dropWhile (· == '0')).reverse

end Provenance.Text
