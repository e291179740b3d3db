import Provenance.Binary64.Width
import Provenance.Text.Digits

/-!
Decimal text of a 64-bit float: the fewest digits that read back as the same float, of those the nearest
to it, and of two equally near the larger.
-/
namespace Provenance.Binary64

def digitCount (n : Nat) : Nat := if n = 0 then 0 else (Nat.toDigits 10 n).length

/-- The exponent of the leading decimal digit of `num / den`, both positive. -/
def decimalExponent (num den : Nat) : Int :=
  if den ≤ num then Int.ofNat (digitCount (num / den) - 1)
  else -Int.ofNat (digitCount ((den + num - 1) / num - 1))

structure Interval where
  low : Nat
  mid : Nat
  high : Nat
  den : Nat
  closed : Bool

def interval (bits : Nat) : Interval :=
  let e := double.power bits
  let f := double.mantissa bits
  let m := if e = 0 then f else 1 <<< double.fraction + f
  let below := if f = 0 ∧ 1 < e then 1 else 2
  -- the float is 4m units of 2 ^ (max e 1 - 1077)
  let up := max e 1
  let scale n := n <<< (up - 1077)
  ⟨scale (4 * m - below), scale (4 * m), scale (4 * m + 2), 1 <<< (1077 - up), m % 2 = 0⟩

def Interval.holds (i : Interval) (n d : Nat) : Bool :=
  if i.closed then i.low * d ≤ n * i.den ∧ n * i.den ≤ i.high * d
  else i.low * d < n * i.den ∧ n * i.den < i.high * d

/-- The multiple of `10 ^ unit` in the interval that is nearest to its middle, as that multiple. -/
def Interval.onGrid? (i : Interval) (unit : Int) : Option Nat :=
  let up := Text.tenTo unit.toNat
  let down := Text.tenTo (-unit).toNat
  let n := i.mid * down / (i.den * up)
  match i.holds (n * up) down, i.holds ((n + 1) * up) down with
  | false, false => none
  | true, false => some n
  | false, true => some (n + 1)
  | true, true => if 2 * i.mid * down < (2 * n + 1) * up * i.den then some n else some (n + 1)

/-- Digits `n` with the exponent of the last: the value is `n * 10 ^ unit`. -/
structure Decimal where
  digits : Nat
  unit : Int

def Interval.firstGrid (i : Interval) (unit : Int) : (tries : Nat) → Decimal
  | 0 => ⟨0, 0⟩
  | t + 1 =>
    match i.onGrid? unit with
    | some n => ⟨n, unit⟩
    | none => firstGrid i (unit - 1) t

def shortest (bits : Nat) : Decimal :=
  let i := interval bits
  i.firstGrid (decimalExponent i.mid i.den) 18

/-- Positional digits with a point; an integral number keeps one zero after it. -/
def positional (ds : List Char) (point : Int) : List Char :=
  if point ≤ 0 then ['0', '.'] ++ List.replicate (-point).toNat '0' ++ ds
  else
    let whole := ds.take point.toNat ++ List.replicate (point.toNat - ds.length) '0'
    let rest := ds.drop point.toNat
    whole ++ '.' :: (if rest.isEmpty then ['0'] else rest)

def scientific (ds : List Char) (point : Int) : List Char :=
  let mark := 'e' :: (toString (point - 1)).toList
  match ds with
  | [] => mark
  | [d] => d :: mark
  | d :: r => d :: '.' :: r ++ mark

/-- Positional from `0.0001` up to `10 ^ 16`, with an exponent elsewhere. -/
def render (bits : Nat) : String :=
  let e := double.power bits
  let f := double.mantissa bits
  let sign := if double.sign bits = 1 then "-" else ""
  if e = double.top then
    if f = 0 then sign ++ "inf" else "NaN"
  else if e = 0 ∧ f = 0 then sign ++ "0.0"
  else
    let d := shortest bits
    let all := Nat.toDigits 10 d.digits
    let ds := (all.reverse.dropWhile (· == '0')).reverse
    let point := Int.ofNat all.length + d.unit
    sign ++ String.ofList (if -4 < point ∧ point ≤ 16 then positional ds point else scientific ds point)

end Provenance.Binary64
