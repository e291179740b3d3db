import Provenance.Octets

/-!
Elements of ASN.1 in distinguished encoding: an identifier, a definite length and that many octets. A length may have
more octets than it needs.
-/
namespace Provenance.Asn1

/-- The number that the octets spell with seven bits each, up to the first one without the high bit. -/
def base128? (n : Nat) : Octets → Option (Nat × Octets)
  | [] => none
  | x :: r => if x < 0x80 then some (n * 128 + x.toNat, r) else base128? (n * 128 + (x.toNat - 128)) r

theorem base128?_shorter {n m : Nat} {b r : Octets} (h : base128? n b = some (m, r)) : r.length < b.length := by
  induction b generalizing n with
  | nil => simp [base128?] at h
  | cons x b ih =>
    rw [base128?] at h
    split at h
    · obtain ⟨-, rfl⟩ := by simpa using h
      simp
    · have := ih h
      simp only [List.length_cons]; omega

def tagNumber? (first : UInt8) (b : Octets) : Option (Nat × Octets) :=
  if first &&& 0x1f = 0x1f then base128? 0 b else some ((first &&& 0x1f).toNat, b)

/-- Lengths from 128 on say first how many octets they have. -/
def length? : Octets → Option (Nat × Octets)
  | [] => none
  | x :: r =>
    let count := x.toNat - 128
    if x < 0x80 then some (x.toNat, r)
    else if x = 0x80 ∨ x = 0xff ∨ r.length < count ∨ 8 < (Octets.stripZeros (r.take count)).length then none
    else some (Octets.toNat (r.take count), r.drop count)

structure Header where
  first : UInt8
  number : Nat
  size : Nat

def header? : Octets → Option (Header × Octets)
  | [] => none
  | first :: r => do
    let (number, r) ← tagNumber? first r
    let (size, r) ← length? r
    return (⟨first, number, size⟩, r)

theorem tagNumber?_shorter {x : UInt8} {n : Nat} {b r : Octets} (h : tagNumber? x b = some (n, r)) :
    r.length ≤ b.length := by
  unfold tagNumber? at h
  split at h
  · exact Nat.le_of_lt (base128?_shorter h)
  · simp_all

theorem length?_shorter {n : Nat} {b r : Octets} (h : length? b = some (n, r)) : r.length < b.length := by
  cases b with
  | nil => simp [length?] at h
  | cons x b =>
    simp only [length?] at h
    split at h
    · simp_all
    · split at h
      · simp at h
      · obtain ⟨-, rfl⟩ := by simpa using h
        simp only [List.length_drop, List.length_cons]; omega

theorem header?_shorter {h : Header} {b r : Octets} (e : header? b = some (h, r)) : r.length < b.length := by
  cases b with
  | nil => simp [header?] at e
  | cons x b =>
    simp only [header?, Option.bind_eq_bind, Option.bind_eq_some_iff, Option.pure_def, Option.some.injEq,
      Prod.mk.injEq] at e
    obtain ⟨⟨n, r'⟩, h₁, ⟨m, r''⟩, h₂, -, rfl⟩ := e
    have := tagNumber?_shorter h₁
    have := length?_shorter h₂
    simp only [List.length_cons] at *; omega

structure Element extends Header where
  content : Octets
  raw : Octets

namespace Element

def read? (b : Octets) : Option (Element × Octets) :=
  match header? b with
  | some (h, r) =>
    if h.size ≤ r.length then some (⟨h, r.take h.size, b.take (b.length - (r.length - h.size))⟩, r.drop h.size)
    else none
  | none => none

theorem read?_shorter {e : Element} {b r : Octets} (h : read? b = some (e, r)) : r.length < b.length := by
  unfold read? at h
  split at h
  · rename_i _ _ hh
    have := header?_shorter hh
    split at h
    · obtain ⟨-, rfl⟩ := by simpa using h
      simp only [List.length_drop]; omega
    · simp at h
  · simp at h

def all? (b : Octets) : Option (List Element) :=
  if b = [] then some []
  else
    match _h : read? b with
    | some (e, r) => (all? r).map (e :: ·)
    | none => none
termination_by b.length
decreasing_by exact read?_shorter ‹_›

end Element

/-! The numbers of universal types. -/
namespace Tag

def boolean : Nat := 1
def integer : Nat := 2
def bitString : Nat := 3
def octetString : Nat := 4
def oid : Nat := 6
def utf8String : Nat := 12
def sequence : Nat := 16
def set : Nat := 17
def utcTime : Nat := 23
def generalizedTime : Nat := 24
def universalString : Nat := 28
def bmpString : Nat := 30

end Tag

/-- Contents of an integer that is not negative, written as short as it can be, below `2 ^ 32`. -/
def isShort : Octets → Bool
  | [] => false
  | [x] => x < 0x80
  | 0 :: x :: r => 0x80 ≤ x ∧ r.length < 4
  | x :: r => x < 0x80 ∧ r.length < 4

namespace Element

variable (e : Element)

def isUniversal : Bool := e.first < 0x40

def isContext : Bool := e.first &&& 0xc0 = 0x80

def isConstructed : Bool := e.first &&& 0x20 ≠ 0

def isShortNumber : Bool := e.number = Tag.integer ∧ isShort e.content

end Element

end Provenance.Asn1
