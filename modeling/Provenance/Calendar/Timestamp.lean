import Provenance.Text.Digits
import Provenance.Text.Slice
import Provenance.Calendar.Instant

/-!
Timestamps after RFC 3339. Written ones have a fraction of three, six or nine digits or none, and a leap second
as second 60; read ones may stand at any offset from UTC below a day.
-/
namespace Provenance.Calendar.Timestamp

inductive Zone
  | zulu
  | zero

def Zone.render : Zone → List Char
  | zulu => ['Z']
  | zero => "+00:00".toList

/-- Four digits; a year outside them has a sign. -/
def renderYear (y : Int) : List Char :=
  if 0 ≤ y ∧ y ≤ 9999 then Text.fixed 4 y.toNat
  else (if y < 0 then '-' else '+') :: Text.padded 4 y.natAbs

def renderFraction (nanos : Nat) : List Char :=
  if nanos = 0 then []
  else if nanos % 1000000 = 0 then '.' :: Text.fixed 3 (nanos / 1000000)
  else if nanos % 1000 = 0 then '.' :: Text.fixed 6 (nanos / 1000)
  else '.' :: Text.fixed 9 nanos

def renderChars (z : Zone) (t : Instant) : List Char :=
  let c := t.civil
  renderYear c.year ++ '-' :: Text.fixed 2 c.month ++ '-' :: Text.fixed 2 c.day ++
    'T' :: Text.fixed 2 c.hour ++ ':' :: Text.fixed 2 c.minute ++
    ':' :: Text.fixed 2 (c.second + t.nanos / 1000000000) ++ renderFraction (t.nanos % 1000000000) ++ z.render

def render (z : Zone) (t : Instant) : String := String.ofList (renderChars z t)

def number? (width : Nat) (cs : List Char) : Option (Nat × List Char) :=
  if (cs.take width).length = width then (Text.number? (cs.take width)).map (·, cs.drop width) else none

/-- Nanoseconds of a point with at least one digit; more than nine digits are cut off. Nothing is zero. -/
def fraction? : List Char → Option (Nat × List Char)
  | '.' :: r =>
    let ds := r.takeWhile Text.isDigit
    let kept := ds.take 9
    if ds.isEmpty then none
    else (Text.number? kept).map fun n => (n * Text.tenTo (9 - kept.length), r.dropWhile Text.isDigit)
  | cs => some (0, cs)

/-- Why a text is not read as a timestamp. -/
inductive Refusal
  | outOfRange
  | invalid
  | premature
  | trailing
  deriving DecidableEq, Repr

def Refusal.message : Refusal → String
  | outOfRange => "input is out of range"
  | invalid => "input contains invalid characters"
  | premature => "premature end of input"
  | trailing => "trailing input"

/-- A text is too short for a number if it has fewer octets than the number digits. -/
def number (width : Nat) (cs : List Char) : Except Refusal (Nat × List Char) :=
  match number? width cs with
  | some r => .ok r
  | none => .error (if Text.octetCount cs < width then .premature else .invalid)

def expect (p : Char → Bool) : List Char → Except Refusal (List Char)
  | c :: r => if p c then .ok r else .error .invalid
  | [] => .error .premature

def within (lo hi n : Nat) : Except Refusal Unit := if lo ≤ n ∧ n ≤ hi then .ok () else .error .outOfRange

def fraction (cs : List Char) : Except Refusal (Nat × List Char) :=
  match fraction? cs with
  | some r => .ok r
  | none => .error (if cs.length = 1 then .premature else .invalid)

def sign (c : Char) : Except Refusal Int :=
  if c = '+' then .ok 1 else if c = '-' ∨ c = '\u2212' then .ok (-1) else .error .invalid

def offset : List Char → Except Refusal (Int × List Char)
  | [] => .error .premature
  | c :: r =>
    if c = 'Z' ∨ c = 'z' then .ok (0, r)
    else do
      let sign ← sign c
      let (h, r) ← number 2 r
      let r ← expect (· = ':') r
      let (m, r) ← number 2 r
      within 0 59 m
      within 0 23 h
      return (sign * (3600 * h + 60 * m : Nat), r)

def ended (cs : List Char) : Except Refusal Unit := if cs = [] then .ok () else .error .trailing

/-- A leap second may be in any minute that a timestamp says. -/
def instantAt (here : Civil) (offset : Int) (nanos : Nat) : Except Refusal Instant :=
  let leap := here.second = 60
  let whole := { here with second := if leap then 59 else here.second }
  let nanos := if leap then nanos + 1000000000 else nanos
  match if whole.Valid then Instant.of? (whole.secs - offset) nanos else none with
  | some t => .ok t
  | none => .error .outOfRange

/-- Numbers are checked as they are read, but for the day of the month, which is also checked at the end. -/
def parseChars (cs : List Char) : Except Refusal Instant := do
  let (year, cs) ← number 4 cs
  let cs ← expect (· = '-') cs
  let (month, cs) ← number 2 cs
  within 1 12 month
  let cs ← expect (· = '-') cs
  let (day, cs) ← number 2 cs
  within 1 31 day
  let cs ← expect (fun c => c = 'T' ∨ c = 't' ∨ c = ' ') cs
  let (hour, cs) ← number 2 cs
  within 0 23 hour
  let cs ← expect (· = ':') cs
  let (minute, cs) ← number 2 cs
  within 0 59 minute
  let cs ← expect (· = ':') cs
  let (second, cs) ← number 2 cs
  within 0 60 second
  let (nanos, cs) ← fraction cs
  let (offset, cs) ← offset cs
  ended cs
  instantAt ⟨year, month, day, hour, minute, second⟩ offset nanos

def parse (s : String) : Except Refusal Instant := parseChars s.toList

end Provenance.Calendar.Timestamp
