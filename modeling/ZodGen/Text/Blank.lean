import ZodGen.Text.Ranges

/-!
# White space

The Unicode property White_Space.
-/

namespace ZodGen.Text

/-- All characters with the property White_Space. -/
def blankRanges : List (Nat × Nat) := [
  (0x09, 0x0D), (0x20, 0x20), (0x85, 0x85), (0xA0, 0xA0), (0x1680, 0x1680), (0x2000, 0x200A),
  (0x2028, 0x2029), (0x202F, 0x202F), (0x205F, 0x205F), (0x3000, 0x3000)]

/-- White space of any kind, line breaks included. -/
def isBlank (c : Char) : Bool := inRanges blankRanges c.toNat

/-- Nothing but white space. -/
def allBlank (cs : List Char) : Bool := cs.all isBlank

end ZodGen.Text
