/-!
# Ranges of characters

A class of characters as the ranges of code points that make it up.
-/

namespace VisualBasic.Text

/-- Whether the character lies in one of the ranges, ends included. -/
def inRanges (ranges : List (Nat × Nat)) (c : Char) : Bool :=
  ranges.any fun (first, last) => first ≤ c.toNat && c.toNat ≤ last

end VisualBasic.Text
