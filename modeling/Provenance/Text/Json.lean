import Provenance.Text.Digits

/-!
JSON texts. Strings are kept as the numbers that their characters and escapes spell, so that half of a surrogate pair
may stand in a string that nobody reads.
-/
namespace Provenance.Text

inductive Json
  | null
  | bool (b : Bool)
  | number (spelling : List Char)
  | text (points : List Nat)
  | array (items : List Json)
  | object (members : List (List Nat × Json))

namespace Json

def points (s : String) : List Nat := s.toList.map Char.toNat

/-- Pairs of surrogates are one character each; a lone one is none. -/
def chars? : List Nat → Option (List Char)
  | [] => some []
  | n :: ns =>
    if n < 0xd800 ∨ 0xdfff < n then (chars? ns).map (Char.ofNat n :: ·)
    else match ns with
      | m :: ms =>
        if n < 0xdc00 ∧ 0xdc00 ≤ m ∧ m ≤ 0xdfff then
          (chars? ms).map (Char.ofNat (0x10000 + (n - 0xd800) * 0x400 + (m - 0xdc00)) :: ·)
        else none
      | [] => none

def string? (ps : List Nat) : Option String := (chars? ps).map String.ofList

/-! Reading -/

def isBlank (c : Char) : Bool := c = ' ' ∨ c = '\n' ∨ c = '\t' ∨ c = '\r'

def skip (cs : List Char) : List Char := cs.dropWhile isBlank

theorem skip_length (cs : List Char) : (skip cs).length ≤ cs.length := (List.dropWhile_sublist _).length_le

def hexValue? (c : Char) : Option Nat :=
  if isDigit c then some (c.toNat - 48)
  else if 'a' ≤ c ∧ c ≤ 'f' then some (c.toNat - 87)
  else if 'A' ≤ c ∧ c ≤ 'F' then some (c.toNat - 55)
  else none

def escape? (c : Char) : Option Nat :=
  [('"', 0x22), ('\\', 0x5c), ('/', 0x2f), ('b', 0x08), ('f', 0x0c), ('n', 0x0a), ('r', 0x0d), ('t', 0x09)].lookup c

def stringRest? : List Char → Option (List Nat × List Char)
  | [] => none
  | '"' :: r => some ([], r)
  | '\\' :: 'u' :: a :: b :: c :: d :: r => do
    let n := 0x1000 * (← hexValue? a) + 0x100 * (← hexValue? b) + 0x10 * (← hexValue? c) + (← hexValue? d)
    let (ns, r) ← stringRest? r
    return (n :: ns, r)
  | '\\' :: e :: r => do
    let n ← escape? e
    let (ns, r) ← stringRest? r
    return (n :: ns, r)
  | c :: r => do
    if c = '\\' ∨ c.toNat < 0x20 then none
    let (ns, r) ← stringRest? r
    return (c.toNat :: ns, r)

def digits? (cs : List Char) : Option (List Char) :=
  if (cs.takeWhile isDigit).isEmpty then none else some (cs.dropWhile isDigit)

/-- What follows the digits before a point; a zero stands alone. -/
def whole? : List Char → Option (List Char)
  | '0' :: r => some r
  | cs => digits? cs

def fraction? : List Char → Option (List Char)
  | '.' :: r => digits? r
  | cs => some cs

def exponent? : List Char → Option (List Char)
  | c :: r =>
    if c = 'e' ∨ c = 'E' then
      match r with
      | '+' :: r | '-' :: r => digits? r
      | r => digits? r
    else some (c :: r)
  | [] => some []

def numberRest? (cs : List Char) : Option (List Char) := do
  let r ← whole? (match cs with | '-' :: r => r | cs => cs)
  let r ← fraction? r
  exponent? r

def literal? (word : String) (cs : List Char) : Option (List Char) :=
  if word.toList.isPrefixOf cs then some (cs.drop word.length) else none

def scalar? (cs : List Char) : Option (Json × List Char) :=
  match cs with
  | 'n' :: _ => (literal? "null" cs).map (null, ·)
  | 't' :: _ => (literal? "true" cs).map (bool true, ·)
  | 'f' :: _ => (literal? "false" cs).map (bool false, ·)
  | '"' :: r => (stringRest? r).map fun (ns, r) => (text ns, r)
  | _ => (numberRest? cs).map fun r => (number (cs.take (cs.length - r.length)), r)

mutual

def value? (cs : List Char) : Option (Json × List Char) :=
  match _h : skip cs with
  | '[' :: r =>
    match skip r with
    | ']' :: r => some (array [], r)
    | _ => (items? r).map fun (vs, r) => (array vs, r)
  | '\x7b' :: r =>
    match skip r with
    | '\x7d' :: r => some (object [], r)
    | _ => (members? r).map fun (ms, r) => (object ms, r)
  | cs => scalar? cs
termination_by 2 * cs.length
decreasing_by all_goals (have h := skip_length cs; rw [_h] at h; simp only [List.length_cons] at h; omega)

def items? (cs : List Char) : Option (List Json × List Char) := do
  let (v, r) ← value? cs
  match skip r with
  | ',' :: r => if r.length < cs.length then (items? r).map fun (vs, r) => (v :: vs, r) else none
  | ']' :: r => some ([v], r)
  | _ => none
termination_by 2 * cs.length + 1

def members? (cs : List Char) : Option (List (List Nat × Json) × List Char) := do
  let '"' :: r := skip cs | none
  let (key, r) ← stringRest? r
  let ':' :: r := skip r | none
  if r.length < cs.length then
    let (v, r) ← value? r
    match skip r with
    | ',' :: r => if r.length < cs.length then (members? r).map fun (ms, r) => ((key, v) :: ms, r) else none
    | '\x7d' :: r => some ([(key, v)], r)
    | _ => none
  else none
termination_by 2 * cs.length + 1

end

def parse? (s : String) : Option Json :=
  match value? s.toList with
  | some (v, r) => if skip r = [] then some v else none
  | none => none

/-! Writing -/

/-- What needs no escape stands for itself; half of a surrogate pair cannot. -/
def quotePoint (n : Nat) : List Char :=
  if n = 0x22 ∨ n = 0x5c then ['\\', Char.ofNat n]
  else if n < 0x20 ∨ 0xd800 ≤ n ∧ n ≤ 0xdfff then '\\' :: 'u' :: (Nat.toDigits 16 (0x10000 + n)).tail
  else [Char.ofNat n]

def quote (ps : List Nat) : List Char := '"' :: ps.flatMap quotePoint ++ ['"']

mutual

def renderChars : Json → List Char
  | null => "null".toList
  | bool b => (if b then "true" else "false").toList
  | number cs => cs
  | text ps => quote ps
  | array vs => '[' :: renderItems vs ++ [']']
  | object ms => '\x7b' :: renderMembers ms ++ ['\x7d']

def renderItems : List Json → List Char
  | [] => []
  | [v] => renderChars v
  | v :: vs => renderChars v ++ ',' :: renderItems vs

def renderMembers : List (List Nat × Json) → List Char
  | [] => []
  | [(key, v)] => quote key ++ ':' :: renderChars v
  | (key, v) :: ms => quote key ++ ':' :: renderChars v ++ ',' :: renderMembers ms

end

def render (v : Json) : String := String.ofList (renderChars v)

end Json

end Provenance.Text
