import Provenance.Calendar.Civil

/-!
Instants: whole seconds since 1970 with nanoseconds. A leap second is second 59 with a thousand million
nanoseconds or more. As many in any other second, which some libraries let a caller set, are left out.
-/
namespace Provenance.Calendar

def minYear : Int := -262143
def maxYear : Int := 262142

def minSecs : Int := (Civil.mk minYear 1 1 0 0 0).secs
def maxSecs : Int := (Civil.mk maxYear 12 31 23 59 59).secs

theorem minSecs_eq : minSecs = -8334601228800 := by decide
theorem maxSecs_eq : maxSecs = 8210266876799 := by decide

def Instant.Valid (secs : Int) (nanos : Nat) : Prop :=
  minSecs ≤ secs ∧ secs ≤ maxSecs ∧ nanos < 2000000000 ∧ (1000000000 ≤ nanos → secs % 60 = 59)

instance (secs : Int) (nanos : Nat) : Decidable (Instant.Valid secs nanos) := by
  unfold Instant.Valid; infer_instance

structure Instant where
  secs : Int
  nanos : Nat
  valid : Instant.Valid secs nanos
  deriving DecidableEq

namespace Instant

def of? (secs : Int) (nanos : Nat) : Option Instant :=
  if h : Valid secs nanos then some ⟨secs, nanos, h⟩ else none

def epoch : Instant := ⟨0, 0, by decide⟩

instance : Inhabited Instant := ⟨epoch⟩

def ofCivil? (c : Civil) (nanos : Nat) : Option Instant := if c.Valid then of? c.secs nanos else none

def civil (t : Instant) : Civil := Civil.ofSecs t.secs

def year (t : Instant) : Int := t.civil.year

/-- The instant at the start of its second; a leap second is the end of second 59. -/
def wholeSecond (t : Instant) : Instant :=
  ⟨t.secs, 0, t.valid.1, t.valid.2.1, by decide, fun h => absurd h (by decide)⟩

end Instant

end Provenance.Calendar
