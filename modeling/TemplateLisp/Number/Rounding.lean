/-!
# Rounding a quotient

Every inexact operation on numbers computes an exact quotient and rounds it once. A half goes to the
even neighbour.
-/

namespace TemplateLisp

/-- The integer nearest to `num / den`; of two equally near ones the even one. -/
def roundQuotient (num den : Nat) : Nat :=
  let q := num / den
  let r := num % den
  if 2 * r < den then q
  else if den < 2 * r then q + 1
  else if q % 2 = 0 then q
  else q + 1

/-- How many decimal digits `n` has; zero has one. -/
def decimalLength (n : Nat) : Nat := (Nat.toDigits 10 n).length

end TemplateLisp
