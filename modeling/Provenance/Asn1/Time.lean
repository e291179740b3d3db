import Provenance.Fault
import Provenance.Text.Utf8
import Provenance.Text.Quoted
import Provenance.Text.Digits
import Provenance.Calendar.Instant

/-!
The two time types of ASN.1 as certificates use them: `YYMMDDHHMMSSZ` for the years 1950 to 2049 and
`YYYYMMDDHHMMSS[.f]Z` for the years 0 to 9999.
-/
namespace Provenance.Asn1

open Calendar (Instant Civil)

inductive TimeFormat
  | utc
  | generalized
  deriving DecidableEq, Repr

namespace TimeFormat

def tag : TimeFormat → UInt8
  | utc => 0x17
  | generalized => 0x18

def name : TimeFormat → String
  | utc => "UTCTime"
  | generalized => "GeneralizedTime"

def forValidity (t : Instant) : TimeFormat :=
  if 1950 ≤ t.year ∧ t.year ≤ 2049 then utc else generalized

def covers (f : TimeFormat) (year : Int) : Bool :=
  match f with
  | utc => 1950 ≤ year ∧ year ≤ 2049
  | generalized => 0 ≤ year ∧ year ≤ 9999

end TimeFormat

namespace Time

def renderRest (c : Civil) : List Char :=
  Text.fixed 2 c.month ++ Text.fixed 2 c.day ++ Text.fixed 2 c.hour ++ Text.fixed 2 c.minute ++ Text.fixed 2 c.second

/-- A point and the digits that are not trailing zeros; nothing for a whole second. -/
def renderFraction (nanos : Nat) : List Char :=
  if nanos = 0 then [] else '.' :: Text.trimZeros (Text.fixed 9 nanos)

def renderChars (f : TimeFormat) (t : Instant) : List Char :=
  let c := t.civil
  match f with
  | .utc => Text.fixed 2 (c.year % 100).toNat ++ renderRest c ++ ['Z']
  | .generalized => Text.fixed 4 c.year.toNat ++ renderRest c ++ renderFraction (t.nanos % 1000000000) ++ ['Z']

def encode (f : TimeFormat) (t : Instant) : Outcome String :=
  if f.covers t.year then .ok (String.ofList (renderChars f t))
  else .error (.unsupported s!"year {t.year} cannot be expressed as {f.name}")

def refuse {α : Type} (cs : List Char) (why : String) : Outcome α :=
  .error (.malformed s!"{Text.quoted (String.ofList cs)}: {why}")

def field (cs : List Char) (start width : Nat) : Outcome Nat :=
  match Text.number? ((cs.drop start).take width) with
  | some n => .ok n
  | none => refuse cs s!"expecting digits at {start}"

def assemble (cs : List Char) (year start nanos : Nat) : Outcome Instant := do
  let month ← field cs start 2
  let day ← field cs (start + 2) 2
  let hour ← field cs (start + 4) 2
  let minute ← field cs (start + 6) 2
  let second ← field cs (start + 8) 2
  match Instant.ofCivil? ⟨year, month, day, hour, minute, second⟩ nanos with
  | some t => .ok t
  | none => refuse cs "not a valid calendar time"

def fraction (cs : List Char) : List Char → Outcome Nat
  | [] => .ok 0
  | '.' :: ds =>
    if ds.length = 0 ∨ 9 < ds.length then refuse cs "fraction MUST have 1 to 9 digits"
    else (field ds 0 ds.length).map (· * Text.tenTo (9 - ds.length))
  | _ => refuse cs "expecting '.' after the seconds"

def decodeUtc (cs : List Char) : Outcome Instant :=
  if cs.length ≠ 13 ∨ cs.getLast? ≠ some 'Z' then refuse cs "UTCTime MUST be 13 characters ending in Z"
  else do
    let yy ← field cs 0 2
    assemble cs (if yy < 50 then 2000 + yy else 1900 + yy) 2 0

def decodeGeneralized (cs : List Char) : Outcome Instant :=
  if cs.length < 15 ∨ cs.getLast? ≠ some 'Z' then
    refuse cs "GeneralizedTime MUST be at least 15 characters ending in Z"
  else do
    let year ← field cs 0 4
    let nanos ← fraction cs ((cs.drop 14).take (cs.length - 15))
    assemble cs year 4 nanos

def decodeChars (f : TimeFormat) (cs : List Char) : Outcome Instant :=
  if cs.all (·.toNat < 128) then
    match f with
    | .utc => decodeUtc cs
    | .generalized => decodeGeneralized cs
  else refuse cs "non-ASCII time string"

def decode (f : TimeFormat) (s : String) : Outcome Instant := decodeChars f s.toList

/-- Tag, length and text; a written time is at most 25 octets long. -/
def toDer (f : TimeFormat) (t : Instant) : Outcome Octets := do
  let s ← encode f t
  return f.tag :: UInt8.ofNat (Text.octets s).length :: Text.octets s

def ofContent (f : TimeFormat) (size : UInt8) (content : Octets) : Outcome (Instant × TimeFormat) :=
  if size.toNat ≠ content.length then
    .error (.malformed s!"ASN.1 time: length {size.toNat} does not match {content.length} content octets")
  else
    match Text.read content with
    | .ok s => (decode f s).map (·, f)
    | .error d => .error (.malformed s!"ASN.1 time: {d.message}")

def ofDer : Octets → Outcome (Instant × TimeFormat)
  | 0x17 :: size :: content => ofContent .utc size content
  | 0x18 :: size :: content => ofContent .generalized size content
  | tag :: _ => .error (.unsupported s!"ASN.1 tag 0x{Octets.hex [tag]} is not a time type")
  | [] => .error (.malformed "empty ASN.1 time")

end Time

end Provenance.Asn1
