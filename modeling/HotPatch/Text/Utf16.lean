/-!
# The polynomial hash of a text

A static initializer is announced to its interceptor by a 32-bit hash of the
class descriptor: the polynomial in 31 over the UTF-16 units of the text,
with wrapping arithmetic.  Characters beyond the basic plane count as the two
units of their surrogate pair.
-/

namespace HotPatch.Text

/-- The UTF-16 units of one character. -/
def units (c : Char) : List Nat :=
  if c.toNat < 0x10000 then [c.toNat]
  else
    [0xD800 + (c.toNat - 0x10000) / 0x400, 0xDC00 + (c.toNat - 0x10000) % 0x400]

/-- The UTF-16 units of a text, in order. -/
def units16 (s : String) : List Nat := s.toList.flatMap units

/-- One more unit at the low end of the polynomial. -/
def hashStep (h : Int32) (unit : Nat) : Int32 := h * 31 + Int32.ofNat unit

/-- The polynomial in 31 over the UTF-16 units, modulo `2³²` and signed. -/
def hash (s : String) : Int32 := (units16 s).foldl hashStep 0

theorem units16_append (a b : String) : units16 (a ++ b) = units16 a ++ units16 b := by
  simp [units16]

end HotPatch.Text
