/-!
# Blanks

The blank characters of the character database.
-/

namespace ClientBoundary

namespace Text

/-- Blank characters outside of the two dense ranges. -/
def singleBlanks : List Nat :=
  [0x20, 0x85, 0xa0, 0x1680, 0x2028, 0x2029, 0x202f, 0x205f, 0x3000]

/-- Whether a character is blank. -/
def isBlank (c : Char) : Bool :=
  (9 ≤ c.toNat && c.toNat ≤ 13) || (0x2000 ≤ c.toNat && c.toNat ≤ 0x200a) ||
    singleBlanks.contains c.toNat

end Text

end ClientBoundary
