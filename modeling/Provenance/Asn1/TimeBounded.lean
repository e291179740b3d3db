import Provenance.Asn1.Time
import Provenance.Text.Slice

/-!
Times read on a machine: text is cut at octet offsets, and numbers are words of 32 bits. The reading ends without any
answer where there is no such slice or a number does not fit.
-/
namespace Provenance.Asn1.Time.Bounded

open Calendar (Instant)

abbrev Attempt (α : Type) := ExceptT Fault Option α

def Attempt.ofOutcome {α : Type} (x : Outcome α) : Attempt α := ExceptT.mk (some x)

def Attempt.ofOption {α : Type} (o : Option α) : Attempt α := ExceptT.mk (o.map .ok)

open Attempt (ofOption ofOutcome)

def word (n : Nat) : Attempt Nat := ofOption (if n < 4294967296 then some n else none)

def less (m n : Nat) : Attempt Nat := ofOption (if n ≤ m then some (m - n) else none)

def power (b : Nat) : Nat → Attempt Nat
  | 0 => pure 1
  | n + 1 => do
    let p ← power b n
    word (b * p)

def parse (n : Nat) : List Char → Attempt Nat
  | [] => pure n
  | c :: cs => do
    let n ← word (10 * n + (c.toNat - 48))
    parse n cs

def digits (cs : List Char) (start width : Nat) : Attempt Nat := do
  let ds ← ofOption (Text.slice? start (start + width) cs)
  if ds.all Text.isDigit then parse 0 ds else ofOutcome (refuse cs s!"expecting digits at {start}")

def assemble (cs : List Char) (year start nanos : Nat) : Attempt Instant := do
  let month ← digits cs start 2
  let day ← digits cs (start + 2) 2
  let hour ← digits cs (start + 4) 2
  let minute ← digits cs (start + 6) 2
  let second ← digits cs (start + 8) 2
  match Instant.ofCivil? ⟨year, month, day, hour, minute, second⟩ nanos with
  | some t => pure t
  | none => ofOutcome (refuse cs "not a valid calendar time")

def scaled (ds : List Char) : Attempt Nat := do
  let zeros ← less 9 (Text.octetCount ds)
  let scale ← power 10 zeros
  let n ← digits ds 0 (Text.octetCount ds)
  word (n * scale)

def fraction (cs : List Char) : List Char → Attempt Nat
  | '.' :: ds =>
    if Text.octetCount ds = 0 ∨ 9 < Text.octetCount ds then ofOutcome (refuse cs "fraction MUST have 1 to 9 digits")
    else scaled ds
  | _ => ofOutcome (refuse cs "expecting '.' after the seconds")

def nanos (cs : List Char) : Attempt Nat := do
  if Text.octetCount cs = 15 then return 0
  let stop ← less (Text.octetCount cs) 1
  let ds ← ofOption (Text.slice? 14 stop cs)
  fraction cs ds

def decodeUtc (cs : List Char) : Attempt Instant :=
  if Text.octetCount cs ≠ 13 ∨ cs.getLast? ≠ some 'Z' then
    ofOutcome (refuse cs "UTCTime MUST be 13 characters ending in Z")
  else do
    let yy ← digits cs 0 2
    let year ← word (if yy < 50 then 2000 + yy else 1900 + yy)
    assemble cs year 2 0

def decodeGeneralized (cs : List Char) : Attempt Instant :=
  if Text.octetCount cs < 15 ∨ cs.getLast? ≠ some 'Z' then
    ofOutcome (refuse cs "GeneralizedTime MUST be at least 15 characters ending in Z")
  else do
    let year ← digits cs 0 4
    let nanos ← nanos cs
    assemble cs year 4 nanos

def decodeChars (f : TimeFormat) (cs : List Char) : Attempt Instant :=
  if cs.all (·.toNat < 128) then
    match f with
    | .utc => decodeUtc cs
    | .generalized => decodeGeneralized cs
  else ofOutcome (refuse cs "non-ASCII time string")

/-- Nothing if a slice or a number was out of bounds. -/
def decode (f : TimeFormat) (s : String) : Option (Outcome Instant) := (decodeChars f s.toList).run

end Provenance.Asn1.Time.Bounded
