/-!
# Blanks

The characters that count as white space inside a URI: the ASCII blanks other than the information
separators, the line and paragraph separators, the byte order mark, and every Unicode space
separator.
-/

namespace Wamp.Uri

/-- The ranges of code points that are blanks, ends included. -/
def blankRanges : List (Nat × Nat) :=
  [(0x09, 0x0d), (0x20, 0x20), (0xa0, 0xa0), (0x1680, 0x1680), (0x2000, 0x200a), (0x2028, 0x2029),
    (0x202f, 0x202f), (0x205f, 0x205f), (0x3000, 0x3000), (0xfeff, 0xfeff)]

/-- Whether a character is a blank. -/
def isBlank (c : Char) : Bool :=
  blankRanges.any fun (low, high) => low ≤ c.toNat && c.toNat ≤ high

end Wamp.Uri
