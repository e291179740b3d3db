import Provenance.Cbor.Reader

/-!
The decoder as a cursor in its input: it counts the octets that it has passed, and a head that was only looked at is
put back in its shortest form, however wide it was read. Where it stands is what a fault names and what trailing octets
are counted from.
-/
namespace Provenance.Cbor

namespace Head

/-- The octets of the shortest form of a head. -/
def size : Head → Nat
  | unsigned n | negative n | tag n => shortest n.toNat
  | bytes size? | text size? | array size? | map size? => (size?.map shortest).getD 1
  | simple n => shortest n.toNat
  | float bits => (writeFloat bits.toNat).length
  | stop => 1

end Head

structure Cursor where
  unread : Octets
  offset : Nat
  ahead? : Option Head

namespace Cursor

def start (b : Octets) : Cursor := ⟨b, 0, none⟩

/-- A head that was put back weighs less than any octets that it was read from. -/
def weight (c : Cursor) : Nat := 2 * c.unread.length + if c.ahead?.isSome then 1 else 0

/-- What was read up to a cursor of less than the weight `bound`. -/
structure Moved (α : Type) (bound : Nat) where
  value : α
  cursor : Cursor
  lighter : cursor.weight < bound

namespace Moved

def map {α β : Type} {n : Nat} (f : α → β) (m : Moved α n) : Moved β n := ⟨f m.value, m.cursor, m.lighter⟩

def mono {α : Type} {m n : Nat} (t : Moved α m) (h : m ≤ n) : Moved α n :=
  ⟨t.value, t.cursor, Nat.lt_of_lt_of_le t.lighter h⟩

end Moved

def malformedAt (offset : Nat) : Fault := (Flaw.malformed 0).fault offset

def pull : (c : Cursor) → Outcome (Moved Head c.weight)
  | ⟨s, n, some h⟩ => .ok ⟨h, ⟨s, n + h.size, none⟩, by simp [weight]⟩
  | ⟨s, n, none⟩ =>
    match Head.read s with
    | .error e => .error (e.fault (n + s.length))
    | .ok ⟨h, r, hr⟩ => .ok ⟨h, ⟨r, n + (s.length - r.length), none⟩, by simp only [weight]; omega⟩

def push (h : Head) (c : Cursor) : Cursor := ⟨c.unread, c.offset - h.size, some h⟩

theorem weight_push_le (h : Head) (c : Cursor) : (c.push h).weight ≤ c.weight + 1 := by
  simp only [weight, push, Option.isSome_some, if_true]
  omega

theorem weight_drop_le (c : Cursor) (size offset : Nat) :
    (⟨c.unread.drop size, offset, c.ahead?⟩ : Cursor).weight ≤ c.weight := by
  simp only [weight, List.length_drop]
  omega

/-- Whether another entry follows the `read` ones of a container: there are fewer than it declares, or the next head
does not end it. -/
def next (size? : Option Nat) (read : Nat) (c : Cursor) : Outcome (Moved Bool (c.weight + 1)) :=
  match size? with
  | some n => .ok ⟨read < n, c, Nat.lt_succ_self _⟩
  | none =>
    match c.pull with
    | .error e => .error e
    | .ok ⟨.stop, d, h⟩ => .ok ⟨false, d, Nat.lt_succ_of_lt h⟩
    | .ok ⟨head, d, h⟩ => .ok ⟨true, d.push head, Nat.lt_of_le_of_lt (weight_push_le head d) (Nat.succ_lt_succ h)⟩

/-- A reader of one value at a cursor. -/
abbrev Step (α : Type) := (c : Cursor) → Outcome (Moved α c.weight)

variable {α : Type}

def entries (step : Step α) (size? : Option Nat) (read : Nat) (c : Cursor) : Outcome (Moved (List α) (c.weight + 1)) :=
  match next size? read c with
  | .error e => .error e
  | .ok ⟨false, d, h⟩ => .ok ⟨[], d, h⟩
  | .ok ⟨true, d, h⟩ =>
    match step d with
    | .error e => .error e
    | .ok ⟨x, d', h'⟩ =>
      match entries step size? (read + 1) d' with
      | .error e => .error e
      | .ok ⟨xs, d'', h''⟩ => .ok ⟨x :: xs, d'', by omega⟩
termination_by c.weight

def pair (step : Step α) : Step (α × α) := fun c =>
  match step c with
  | .error e => .error e
  | .ok ⟨x, d, h⟩ =>
    match step d with
    | .error e => .error e
    | .ok ⟨y, d', h'⟩ => .ok ⟨(x, y), d', by omega⟩

section Strand

variable (k : Strand α)

/-- A run of `size` octets of a segment that begins at `start`. -/
def run (size start : Nat) (c : Cursor) : Outcome (Moved α (c.weight + 1)) :=
  if size ≤ c.unread.length then
    match k.content? (c.unread.take size) with
    | some a => .ok ⟨a, ⟨c.unread.drop size, c.offset + size, c.ahead?⟩, Nat.lt_succ_of_le (weight_drop_le c size _)⟩
    | none => .error (malformedAt start)
  else if k.spoiled c.unread then .error (malformedAt start)
  else .error (Flaw.truncated.fault start)

/-- The segments from the head of a string on, which `nested` heads without a length stand before. -/
def segments (nested : Nat) (c : Cursor) : Outcome (Moved (List α) c.weight) :=
  match c.pull with
  | .error e => .error e
  | .ok ⟨.stop, d, h⟩ =>
    match nested with
    | 0 => .error (malformedAt c.offset)
    | 1 => .ok ⟨[], d, h⟩
    | n + 2 => (segments (n + 1) d).map (·.mono (Nat.le_of_lt h))
  | .ok ⟨head, d, h⟩ =>
    match k.size? head with
    | none => .error (malformedAt c.offset)
    | some none => (segments (nested + 1) d).map (·.mono (Nat.le_of_lt h))
    | some (some n) =>
      match run k n c.offset d with
      | .error e => .error e
      | .ok ⟨a, d', h'⟩ =>
        if nested = 0 then .ok ⟨[a], d', by omega⟩
        else
          match segments nested d' with
          | .error e => .error e
          | .ok ⟨as, d'', h''⟩ => .ok ⟨a :: as, d'', by omega⟩
termination_by c.weight

end Strand

/-- One item, with `room` levels for it and what it holds. The head of a string is put back for its segments. -/
def item : (room : Nat) → Step Item
  | 0, c => .error (Flaw.tooDeep.fault c.offset)
  | room + 1, c =>
    match c.pull with
    | .error e => .error e
    | .ok ⟨head, d, h⟩ =>
      let within {β : Type} (f : β → Item) (t : Outcome (Moved β (d.weight + 1))) : Outcome (Moved Item c.weight) :=
        t.map fun t => (t.map f).mono h
      let string {β : Type} (k : Strand β) (f : β → Item) : Outcome (Moved Item c.weight) :=
        (segments k 0 (d.push head)).map fun t =>
          (t.map (f ∘ k.join)).mono (Nat.le_trans (weight_push_le head d) h)
      match head with
      | .unsigned n => .ok ⟨.unsigned n, d, h⟩
      | .negative n => .ok ⟨.negative n, d, h⟩
      | .float bits => .ok ⟨.float bits, d, h⟩
      | .simple n => ((Item.ofSimple n).mapError (Flaw.fault c.offset)).map fun x => ⟨x, d, h⟩
      | .stop => .error (Flaw.strayBreak.fault c.offset)
      | .bytes _ => string .bytes .bytes
      | .text _ => string .text .text
      | .tag t => (item room d).map fun m => (m.map (.tag t)).mono (Nat.le_of_lt h)
      | .array size? => within .array (entries (item room) size? 0 d)
      | .map size? => within .map (entries (pair (item room)) size? 0 d)

def decode (b : Octets) : Outcome Item := do
  let m ← item (maxNesting + 1) (start b)
  if m.cursor.offset ≠ b.length then throw ((Flaw.trailing (b.length - m.cursor.offset)).fault b.length)
  m.value.checkKeys.mapError (Flaw.fault b.length)
  return m.value

end Cursor

end Provenance.Cbor
