import Provenance.Text.Utf8
import Provenance.Cbor.Writer

/-!
Reading one data item from the front of an octet string. Every reader returns what is left with a proof that it is
shorter, so lengths that the input only declares never drive a loop.
-/
namespace Provenance.Cbor

abbrev Reader (α : Type) := (s : Octets) → Except Flaw (Taken α s.length)

namespace Reader

def times {α : Type} (step : Reader α) : (n : Nat) → (s : Octets) → Except Flaw (Taken (List α) (s.length + 1))
  | 0, s => .ok ⟨[], s, by omega⟩
  | n + 1, s =>
    match step s with
    | .error e => .error e
    | .ok ⟨x, r, h⟩ =>
      match times step n r with
      | .error e => .error e
      | .ok ⟨xs, r', h'⟩ => .ok ⟨x :: xs, r', by omega⟩

def untilStop {α : Type} (step : Reader α) (s : Octets) : Except Flaw (Taken (List α) s.length) :=
  match Head.read s with
  | .error e => .error e
  | .ok ⟨.stop, r, h⟩ => .ok ⟨[], r, h⟩
  | .ok _ =>
    match step s with
    | .error e => .error e
    | .ok ⟨x, r, h⟩ =>
      match untilStop step r with
      | .error e => .error e
      | .ok ⟨xs, r', h'⟩ => .ok ⟨x :: xs, r', by omega⟩
termination_by s.length

def pair {α : Type} (step : Reader α) : Reader (α × α) := fun s =>
  match step s with
  | .error e => .error e
  | .ok ⟨x, r, h⟩ =>
    match step r with
    | .error e => .error e
    | .ok ⟨y, r', h'⟩ => .ok ⟨(x, y), r', by omega⟩

end Reader

structure Strand (α : Type) where
  size? : Head → Option (Option Nat)
  content? : Octets → Option α
  /-- Whether octets that end too early are refused before their end is met. -/
  spoiled : Octets → Bool
  join : List α → α

/-- Text is examined a chunk at a time, and up to three octets at the end of a chunk wait for the next. -/
def textChunk : Nat := 4096

def spoiledText (s : Octets) : Bool :=
  if s.length < textChunk then false
  else
    let n := Text.validLength (s.take textChunk)
    if n + 3 < textChunk then true else spoiledText (s.drop n)
termination_by s.length
decreasing_by
  have : textChunk = 4096 := rfl
  simp only [List.length_drop]
  omega

namespace Strand

def bytes : Strand Octets where
  size?
    | .bytes n => some n
    | _ => none
  content? := some
  spoiled _ := false
  join := List.flatten

def text : Strand String where
  size?
    | .text n => some n
    | _ => none
  content? := Text.ofOctets?
  spoiled := spoiledText
  join := String.join

variable {α : Type} (k : Strand α)

/-- A run of `size` octets; a fault in it is reported where `left` octets remain. -/
def run (size left : Nat) (s : Octets) : Except Flaw (Taken α (s.length + 1)) :=
  if size ≤ s.length then
    match k.content? (s.take size) with
    | some a => .ok ⟨a, s.drop size, Nat.lt_succ_of_le (List.drop_sublist size s).length_le⟩
    | none => .error (.malformed left)
  else if k.spoiled s then .error (.malformed left)
  else .error .truncated

/-- The segments of a string without a length, `depth` strings of the same kind inside it. -/
def segments (depth : Nat) (s : Octets) : Except Flaw (Taken (List α) s.length) :=
  match Head.read s with
  | .error e => .error e
  | .ok ⟨.stop, r, h⟩ =>
    match depth with
    | 0 => .ok ⟨[], r, h⟩
    | d + 1 => (segments d r).map (·.mono (Nat.le_of_lt h))
  | .ok ⟨head, r, h⟩ =>
    match k.size? head with
    | none => .error (.malformed s.length)
    | some none => (segments (depth + 1) r).map (·.mono (Nat.le_of_lt h))
    | some (some n) =>
      match k.run n s.length r with
      | .error e => .error e
      | .ok ⟨a, r', h'⟩ =>
        match segments depth r' with
        | .error e => .error e
        | .ok ⟨as, r'', h''⟩ => .ok ⟨a :: as, r'', by omega⟩
termination_by s.length

/-- A string after its head. A fault in a definite one is counted from the shortest form of the head. -/
def body (size? : Option Nat) (s : Octets) : Except Flaw (Taken α (s.length + 1)) :=
  match size? with
  | some n => k.run n (s.length + Head.shortest n) s
  | none => (segments k 0 s).map fun t => (t.map k.join).mono (Nat.le_succ _)

end Strand

def Item.ofSimple (n : UInt8) : Except Flaw Item :=
  if n = 20 then .ok (.bool false)
  else if n = 21 then .ok (.bool true)
  else if n = 22 then .ok .null
  else if n = 23 then .ok .undefined
  else if 24 ≤ n ∧ n < 32 then .error (.reservedSimple n)
  else .ok (.simple n)

/-- One item, with `room` levels for it and what it holds. -/
def Item.read : (room : Nat) → Reader Item
  | 0, _ => .error .tooDeep
  | room + 1, s =>
    match Head.read s with
    | .error e => .error e
    | .ok ⟨head, r, h⟩ =>
      let within {α : Type} (f : α → Item) (t : Except Flaw (Taken α (r.length + 1))) :
          Except Flaw (Taken Item s.length) := t.map fun t => (t.map f).mono h
      let closed {α : Type} (f : α → Item) (t : Except Flaw (Taken α r.length)) :
          Except Flaw (Taken Item s.length) := t.map fun t => (t.map f).mono (Nat.le_of_lt h)
      match head with
      | .unsigned n => .ok ⟨.unsigned n, r, h⟩
      | .negative n => .ok ⟨.negative n, r, h⟩
      | .float bits => .ok ⟨.float bits, r, h⟩
      | .simple n => (Item.ofSimple n).map fun x => ⟨x, r, h⟩
      | .stop => .error .strayBreak
      | .bytes n => within .bytes (Strand.bytes.body n r)
      | .text n => within .text (Strand.text.body n r)
      | .tag t => closed (.tag t) (Item.read room r)
      | .array (some n) => within .array (Reader.times (Item.read room) n r)
      | .array none => closed .array (Reader.untilStop (Item.read room) r)
      | .map (some n) => within .map (Reader.times (Reader.pair (Item.read room)) n r)
      | .map none => closed .map (Reader.untilStop (Reader.pair (Item.read room)) r)

def Item.ofOctets (b : Octets) : Except Flaw Item := do
  let t ← Item.read (maxNesting + 1) b
  if t.rest ≠ [] then throw (.trailing t.rest.length)
  t.value.checkKeys
  return t.value

def decode (b : Octets) : Outcome Item := (Item.ofOctets b).mapError (Flaw.fault b.length)

end Provenance.Cbor
