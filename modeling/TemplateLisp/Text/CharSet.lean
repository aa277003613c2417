/-!
# Sets of characters

Character classes of the language are properties of the Unicode standard, kept as ascending ranges
of code points. The classes themselves stand in the modules named for them.
-/

namespace TemplateLisp.Text

/-- A set of characters, as ascending ranges of code points with both ends included. -/
structure CharSet where
  ranges : List (Nat × Nat)

/-- Whether `c` lies in one of the ranges. -/
def CharSet.contains (s : CharSet) (c : Char) : Bool :=
  s.ranges.any fun r => r.1 ≤ c.toNat && c.toNat ≤ r.2

end TemplateLisp.Text
