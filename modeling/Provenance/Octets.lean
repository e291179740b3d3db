/-!
Octet strings and the numbers they spell, most significant octet first.
-/
namespace Provenance

abbrev Octets := List UInt8

namespace Octets

def toNat (b : Octets) : Nat := b.foldl (fun n x => n * 256 + x.toNat) 0

def ofNat : (width : Nat) → (n : Nat) → Octets
  | 0, _ => []
  | w + 1, n => UInt8.ofNat (n >>> (8 * w)) :: ofNat w n

@[simp] theorem length_ofNat (w n : Nat) : (ofNat w n).length = w := by
  induction w with
  | zero => rfl
  | succ w ih => simp [ofNat, ih]

def width (n : Nat) : Nat := if n = 0 then 0 else n.log2 / 8 + 1

/-- Nothing if the number takes more octets. -/
def padded? (size n : Nat) : Option Octets := if width n ≤ size then some (ofNat size n) else none

/-- The octets of `n` without a leading zero: none for zero. -/
def minimal (n : Nat) : Octets := ofNat (width n) n

def stripZeros (b : Octets) : Octets := b.dropWhile (· == 0)

def toNatLE (b : Octets) : Nat := b.foldr (fun x n => x.toNat + 256 * n) 0

def ofNatLE (width n : Nat) : Octets := (ofNat width n).reverse

def hexDigit (n : Nat) : Char := Char.ofNat (if n < 10 then 48 + n else 87 + n)

def hexDigits (b : Octets) : List Char :=
  b.flatMap fun x => [hexDigit (x.toNat / 16), hexDigit (x.toNat % 16)]

def hex (b : Octets) : String := String.ofList (hexDigits b)

def hexUpper (b : Octets) : String := String.ofList ((hexDigits b).map Char.toUpper)

def hexValue? (c : Char) : Option Nat :=
  if '0' ≤ c ∧ c ≤ '9' then some (c.toNat - 48)
  else if 'a' ≤ c ∧ c ≤ 'f' then some (c.toNat - 87)
  else if 'A' ≤ c ∧ c ≤ 'F' then some (c.toNat - 55)
  else none

def ofHexDigits? : List Char → Option Octets
  | [] => some []
  | [_] => none
  | a :: b :: r => do
    let x ← hexValue? a
    let y ← hexValue? b
    let rest ← ofHexDigits? r
    return UInt8.ofNat (16 * x + y) :: rest

def ofHex? (s : String) : Option Octets := ofHexDigits? s.toList

/-- Order of octet strings: the first difference decides, a string comes before its extensions. -/
def lt : Octets → Octets → Bool
  | _, [] => false
  | [], _ :: _ => true
  | x :: a, y :: b => if x = y then lt a b else x < y

end Octets

end Provenance
