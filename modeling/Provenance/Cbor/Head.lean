import Provenance.Binary64.Width
import Provenance.Cbor.Flaw

/-!
Heads: the initial octet of a data item with the argument that it announces. Reading takes any of the widths an
argument may have, writing takes the shortest.
-/
namespace Provenance.Cbor

/-- What was read from a string of `bound` octets, and the octets after it: at least one was taken. -/
structure Taken (α : Type) (bound : Nat) where
  value : α
  rest : Octets
  shorter : rest.length < bound

namespace Taken

def map {α β : Type} {n : Nat} (f : α → β) (t : Taken α n) : Taken β n := ⟨f t.value, t.rest, t.shorter⟩

def mono {α : Type} {m n : Nat} (t : Taken α m) (h : m ≤ n) : Taken α n :=
  ⟨t.value, t.rest, Nat.lt_of_lt_of_le t.shorter h⟩

end Taken

/-- The argument of a head by the number of octets it is written in after the initial one. -/
inductive Argument
  | fixed (width value : Nat)
  | indefinite

def Argument.size? : Argument → Option Nat
  | fixed _ n => some n
  | indefinite => none

inductive Head
  | unsigned (n : UInt64)
  | negative (n : UInt64)
  | bytes (size? : Option Nat)
  | text (size? : Option Nat)
  | array (size? : Option Nat)
  | map (size? : Option Nat)
  | tag (n : UInt64)
  | simple (n : UInt8)
  | float (bits : UInt64)
  | stop

namespace Head

def ofArgument? : (major : Nat) → Argument → Option Head
  | 0, .fixed _ n => some (unsigned (.ofNat n))
  | 1, .fixed _ n => some (negative (.ofNat n))
  | 2, a => some (bytes a.size?)
  | 3, a => some (text a.size?)
  | 4, a => some (array a.size?)
  | 5, a => some (map a.size?)
  | 6, .fixed _ n => some (tag (.ofNat n))
  | 7, .fixed 2 n => some (float (.ofNat (Binary64.half.widen n)))
  | 7, .fixed 4 n => some (float (.ofNat (Binary64.single.widen n)))
  | 7, .fixed 8 n => some (float (.ofNat n))
  | 7, .fixed _ n => some (simple (.ofNat n))
  | 7, .indefinite => some stop
  | _, _ => none

def argumentWidth? (info : Nat) : Option Nat :=
  if info = 24 then some 1 else if info = 25 then some 2 else if info = 26 then some 4
  else if info = 27 then some 8 else none

def read (s : Octets) : Except Flaw (Taken Head s.length) :=
  match s with
  | [] => .error .truncated
  | x :: r =>
    let major := x.toNat / 32
    let info := x.toNat % 32
    if info < 24 then
      match ofArgument? major (.fixed 0 info) with
      | some h => .ok ⟨h, r, by simp⟩
      | none => .error (.malformed (r.length + 1))
    else if info = 31 then
      match ofArgument? major .indefinite with
      | some h => .ok ⟨h, r, by simp⟩
      | none => .error (.malformed (r.length + 1))
    else
      match argumentWidth? info with
      | none => .error (.malformed (r.length + 1))
      | some w =>
        if w ≤ r.length then
          match ofArgument? major (.fixed w (Octets.toNat (r.take w))) with
          | some h => .ok ⟨h, r.drop w, by simp only [List.length_drop, List.length_cons]; omega⟩
          | none => .error (.malformed (r.length + 1))
        else .error .truncated

def write (major n : Nat) : Octets :=
  if n < 24 then [.ofNat (32 * major + n)]
  else if n < 0x100 then .ofNat (32 * major + 24) :: Octets.ofNat 1 n
  else if n < 0x10000 then .ofNat (32 * major + 25) :: Octets.ofNat 2 n
  else if n < 0x100000000 then .ofNat (32 * major + 26) :: Octets.ofNat 4 n
  else .ofNat (32 * major + 27) :: Octets.ofNat 8 n

/-- The narrowest float with exactly these bits. -/
def writeFloat (bits : Nat) : Octets :=
  match Binary64.half.narrow? bits, Binary64.single.narrow? bits with
  | some n, _ => 0xf9 :: Octets.ofNat 2 n
  | none, some n => 0xfa :: Octets.ofNat 4 n
  | none, none => 0xfb :: Octets.ofNat 8 bits

def shortest (n : Nat) : Nat :=
  if n < 24 then 1 else if n < 0x100 then 2 else if n < 0x10000 then 3 else if n < 0x100000000 then 5 else 9

theorem length_write (major n : Nat) : (write major n).length = shortest n := by
  unfold write shortest
  repeat' split
  all_goals simp_all

end Head

end Provenance.Cbor
