import TemplateLisp.Number.Basic
import TemplateLisp.Text.Blank
import TemplateLisp.Text.Digit

/-!
# Integers from text

The integer that a text denotes when it is not a token of the language: blanks around it are passed
over, it may have a sign, and single underscores may stand between its digits.
-/

namespace TemplateLisp.IntegerText

/-- Why a text denotes no integer. -/
inductive Failure where
  | malformed
  /-- It has more digits than may be read. -/
  | tooManyDigits (digits : Nat)
deriving DecidableEq, Inhabited

/-- The digits without the underscores between them; none if an underscore does not stand between
two digits. -/
def digits? : List Char → Option (List Char)
  | [] => none
  | [c] => if Text.isDigit c then some [c] else none
  | c :: '_' :: rest =>
    if Text.isDigit c then (digits? rest).map (c :: ·) else none
  | c :: rest => if Text.isDigit c then (digits? rest).map (c :: ·) else none

/-- The sign in front, and the rest. -/
def splitSign : List Char → Bool × List Char
  | '-' :: s => (true, s)
  | '+' :: s => (false, s)
  | s => (false, s)

/-- The integer that a text denotes. -/
def parse (text : String) : Except Failure Int :=
  let (negative, body) := splitSign (Text.trim text.toList)
  match digits? body with
  | none => .error .malformed
  | some ds =>
    if Number.maxDigits < ds.length then .error (.tooManyDigits ds.length)
    else
      let n : Int := Text.digitsValue ds
      .ok (if negative then -n else n)

end TemplateLisp.IntegerText
