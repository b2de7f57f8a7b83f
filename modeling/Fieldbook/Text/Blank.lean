import Fieldbook.Text.Ranges

/-!
# Text/Blank — white space

The Unicode property `White_Space`: the ASCII blank, tab, line feed, vertical tab, form feed and
carriage return, and seventeen characters beyond ASCII.
-/

namespace Fieldbook.Text

/-- The characters of `White_Space` beyond ASCII. -/
def blankRanges : List (Nat × Nat) :=
  [(0x85, 0x85), (0xa0, 0xa0), (0x1680, 0x1680), (0x2000, 0x200a), (0x2028, 0x2029),
  (0x202f, 0x202f), (0x205f, 0x205f), (0x3000, 0x3000)]

/-- White space among the ASCII characters: the blank and the controls from tab to return. -/
def isPlainBlank (c : Char) : Bool := c == ' ' || (9 ≤ c.toNat && c.toNat ≤ 13)

/-- White space. -/
def isBlank (c : Char) : Bool := inClass isPlainBlank blankRanges c

end Fieldbook.Text
