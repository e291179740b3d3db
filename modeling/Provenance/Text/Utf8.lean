import Provenance.Octets

/-!
Text as octets. `scan` walks an octet string sequence by sequence and says where it stops being UTF-8.
-/
namespace Provenance.Text

def octets (s : String) : Octets := s.toUTF8.data.toList

def ofOctets? (b : Octets) : Option String := String.fromUTF8? ⟨b.toArray⟩

/-- What the second octet of a sequence may be, and how many more follow it, by its first octet. -/
def continuation? (first : UInt8) : Option (UInt8 × UInt8 × Nat) :=
  if first < 0xc2 then none
  else if first < 0xe0 then some (0x80, 0xbf, 0)
  else if first = 0xe0 then some (0xa0, 0xbf, 1)
  else if first = 0xed then some (0x80, 0x9f, 1)
  else if first < 0xf0 then some (0x80, 0xbf, 1)
  else if first = 0xf0 then some (0x90, 0xbf, 2)
  else if first < 0xf4 then some (0x80, 0xbf, 2)
  else if first = 0xf4 then some (0x80, 0x8f, 2)
  else none

inductive Sequence
  | whole (size : Nat)
  /-- The octets after the first `size` rule the sequence out. -/
  | broken (size : Nat)
  | unfinished
  deriving DecidableEq, Repr

def trailing (read : Nat) : (more : Nat) → Octets → Sequence
  | 0, _ => .whole read
  | _ + 1, [] => .unfinished
  | more + 1, x :: r => if 0x80 ≤ x ∧ x ≤ 0xbf then trailing (read + 1) more r else .broken read

def sequence : Octets → Sequence
  | [] => .unfinished
  | x :: r =>
    if x < 0x80 then .whole 1 else
    match continuation? x, r with
    | none, _ => .broken 1
    | some _, [] => .unfinished
    | some (lo, hi, more), y :: r => if lo ≤ y ∧ y ≤ hi then trailing 2 more r else .broken 1

inductive Defect
  | invalid (size start : Nat)
  | incomplete (start : Nat)
  deriving DecidableEq, Repr

def Defect.start : Defect → Nat
  | invalid _ n | incomplete n => n

def Defect.message : Defect → String
  | invalid size start => s!"invalid utf-8 sequence of {size} bytes from index {start}"
  | incomplete start => s!"incomplete utf-8 byte sequence from index {start}"

/-- `skip` octets belong to a sequence that is already accepted; `start` counts the octets passed. -/
def scan (skip start : Nat) : Octets → Option Defect
  | [] => none
  | x :: r =>
    match skip with
    | k + 1 => scan k (start + 1) r
    | 0 =>
      match sequence (x :: r) with
      | .whole n => scan (n - 1) (start + 1) r
      | .broken n => some (.invalid n start)
      | .unfinished => some (.incomplete start)

def defect? (b : Octets) : Option Defect := scan 0 0 b

def read (b : Octets) : Except Defect String :=
  match ofOctets? b with
  | some s => .ok s
  | none => .error ((defect? b).getD (.incomplete b.length))

def validLength (b : Octets) : Nat :=
  match defect? b with
  | none => b.length
  | some d => d.start

end Provenance.Text
