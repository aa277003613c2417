import TemplateLisp.Text.Case

/-!
# Names in snake case

A member name written in camel case also stands for its snake-case spelling: `UnitsInStock` for
`units_in_stock`, `CustomerID` for `customer_id`. Only ASCII letters and digits mark word starts.
-/

namespace TemplateLisp.Text

/-- An ASCII capital letter. -/
def isCapital (c : Char) : Bool := 'A' ≤ c && c ≤ 'Z'

/-- An ASCII small letter. -/
def isSmall (c : Char) : Bool := 'a' ≤ c && c ≤ 'z'

/-- An ASCII digit. -/
def isPlainDigit (c : Char) : Bool := '0' ≤ c && c ≤ '9'

/-- Whether a word starts at `c`, which stands between `before` and `after`: at a capital after a
small letter or a digit, and at the last capital of a run that a small letter follows. -/
def startsWord (before c : Char) (after : Option Char) : Bool :=
  ((isSmall before || isPlainDigit before) && isCapital c) ||
    (isCapital before && isCapital c && after.any isSmall)

/-- The text with an underscore in front of every word but the first. -/
def splitWords : List Char → List Char
  | [] => []
  | [c] => [c]
  | c :: d :: rest =>
    if startsWord c d rest.head? then c :: '_' :: splitWords (d :: rest)
    else c :: splitWords (d :: rest)

/-- The snake-case spelling of a name. -/
def snakeCase (name : List Char) : List Char := lower (splitWords name)

end TemplateLisp.Text
