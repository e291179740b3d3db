/-!
The proleptic Gregorian calendar: days and seconds since 1970 and the civil date and time that they fall on.
Year 0 comes before year 1.
-/
namespace Provenance.Calendar

def isLeap (y : Int) : Bool := y % 4 = 0 ∧ (y % 100 ≠ 0 ∨ y % 400 = 0)

def monthLengths (y : Int) : List Nat :=
  [31, if isLeap y then 29 else 28, 31, 30, 31, 30, 31, 31, 30, 31, 30, 31]

def daysBeforeYear (y : Int) : Int := 365 * y + (y + 3) / 4 - (y + 99) / 100 + (y + 399) / 400

def epochDay : Int := daysBeforeYear 1970

def yearOfDay (d : Int) : Int :=
  let y := d * 400 / 146097
  if d < daysBeforeYear y then y - 1
  else if daysBeforeYear (y + 1) ≤ d then y + 1
  else y

/-- Month and day of the month of a day that lies `d` days into months of these lengths, the first numbered `m`. -/
def splitMonths : List Nat → (m d : Nat) → Nat × Nat
  | [], m, d => (m, d + 1)
  | l :: ls, m, d => if d < l then (m, d + 1) else splitMonths ls (m + 1) (d - l)

def daysBeforeMonth (y : Int) (month : Nat) : Nat := ((monthLengths y).take (month - 1)).foldr (· + ·) 0

structure Civil where
  year : Int
  month : Nat
  day : Nat
  hour : Nat
  minute : Nat
  second : Nat
  deriving DecidableEq, Repr

namespace Civil

def Valid (c : Civil) : Prop :=
  1 ≤ c.month ∧ c.month ≤ 12 ∧ 1 ≤ c.day ∧ c.day ≤ (monthLengths c.year)[c.month - 1]?.getD 0 ∧
    c.hour < 24 ∧ c.minute < 60 ∧ c.second < 60

instance (c : Civil) : Decidable c.Valid := by unfold Valid; infer_instance

def days (c : Civil) : Int :=
  daysBeforeYear c.year + daysBeforeMonth c.year c.month + (c.day - 1 : Nat) - epochDay

def secs (c : Civil) : Int := 86400 * c.days + (3600 * c.hour + 60 * c.minute + c.second : Nat)

def ofSecs (t : Int) : Civil :=
  let d := t / 86400 + epochDay
  let s := (t % 86400).toNat
  let y := yearOfDay d
  let (month, day) := splitMonths (monthLengths y) 1 (d - daysBeforeYear y).toNat
  ⟨y, month, day, s / 3600, s / 60 % 60, s % 60⟩

end Civil

end Provenance.Calendar
