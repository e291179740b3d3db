/-!
Binary floating-point numbers as bit patterns: every number of a narrower format is one of the 64-bit
format, and `narrow?` finds the narrower pattern when there is one that widens to exactly these bits.
-/
namespace Provenance.Binary64

/-- A binary interchange format: widths of the exponent and of the fraction. -/
structure Format where
  exponent : Nat
  fraction : Nat

def half : Format := ⟨5, 10⟩
def single : Format := ⟨8, 23⟩
def double : Format := ⟨11, 52⟩

namespace Format

def width (f : Format) : Nat := f.exponent + f.fraction + 1
def bias (f : Format) : Nat := 1 <<< (f.exponent - 1) - 1
def top (f : Format) : Nat := 1 <<< f.exponent - 1

def sign (f : Format) (bits : Nat) : Nat := bits >>> (f.exponent + f.fraction) % 2
def power (f : Format) (bits : Nat) : Nat := bits >>> f.fraction % (1 <<< f.exponent)
def mantissa (f : Format) (bits : Nat) : Nat := bits % (1 <<< f.fraction)

def pack (f : Format) (sign power mantissa : Nat) : Nat :=
  (sign <<< f.exponent + power) <<< f.fraction + mantissa

/-- The 64-bit pattern of the same number. A NaN keeps its payload and becomes quiet. -/
def widen (f : Format) (bits : Nat) : Nat :=
  let s := f.sign bits
  let e := f.power bits
  let m := f.mantissa bits
  let up := double.fraction - f.fraction
  if e = f.top then
    double.pack s double.top (if m = 0 then 0 else m <<< up ||| 1 <<< (double.fraction - 1))
  else if e = 0 then
    if m = 0 then double.pack s 0 0
    else
      let k := m.log2
      double.pack s (k + double.bias + 1 - f.bias - f.fraction) ((m - 1 <<< k) <<< (double.fraction - k))
  else double.pack s (e + double.bias - f.bias) (m <<< up)

/-- The pattern that a narrower one would have to be: fields cut to size. -/
def cut (f : Format) (bits : Nat) : Nat :=
  let s := double.sign bits
  let e := double.power bits
  let m := double.mantissa bits
  let down := double.fraction - f.fraction
  let low := double.bias - f.bias
  if e = double.top then f.pack s f.top (m >>> down)
  else if low < e then f.pack s (min (e - low) f.top) (m >>> down)
  else f.pack s 0 ((1 <<< double.fraction + m) >>> (down + low + 1 - e))

def narrow? (f : Format) (bits : Nat) : Option Nat :=
  if f.widen (f.cut bits) = bits then some (f.cut bits) else none

theorem widen_of_narrow? {f : Format} {bits n : Nat} (h : f.narrow? bits = some n) : f.widen n = bits := by
  unfold narrow? at h
  split at h
  · next w => exact Option.some.inj h ▸ w
  · simp at h

end Format

end Provenance.Binary64
