/-!
# Text/Ranges — character classes given by ranges of code points

The classes of Unicode are written here as ascending, disjoint ranges of code points from `0x80` on.
Below that each class is spelled out where it is defined, so that statements about plain text need
no table.
-/

namespace Fieldbook.Text

/-- Whether a code point lies in one of the ranges, ends included. -/
def inRanges (ranges : List (Nat × Nat)) (c : Char) : Bool :=
  ranges.any fun r => r.1 ≤ c.toNat && c.toNat ≤ r.2

/-- A class that is `plain` on ASCII characters and a table beyond them. -/
def inClass (plain : Char → Bool) (beyond : List (Nat × Nat)) (c : Char) : Bool :=
  if c.toNat < 128 then plain c else inRanges beyond c

theorem inClass_of_le {plain : Char → Bool} {beyond : List (Nat × Nat)} {c : Char}
    (h : 128 ≤ c.toNat) : inClass plain beyond c = inRanges beyond c := by
  simp [inClass, Nat.not_lt.mpr h]

end Fieldbook.Text
