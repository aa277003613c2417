import TemplateLisp.Datum.Basic
import TemplateLisp.Text.Case
import TemplateLisp.Text.Digit
import TemplateLisp.Text.Word

/-!
# Atoms

What a symbol token denotes: an integer, a double, `nil`, a truth value or a symbol. Digits of every
script count. A token that begins like a number and goes on with letters, digits, dots and
underscores is refused as a misspelt number; other tokens that merely begin with a digit are
symbols.
-/

namespace TemplateLisp.Atom

/-- Why a token denotes nothing. -/
inductive Failure where
  | malformedNumber
  /-- An integer has more digits than may be read. -/
  | tooManyDigits (digits : Nat)
deriving DecidableEq, Inhabited

/-- The sign in front of a numeral, and the rest. -/
def splitSign : List Char → Bool × List Char
  | '-' :: s => (true, s)
  | '+' :: s => (false, s)
  | s => (false, s)

/-- The leading digits, and the rest. -/
def splitDigits (s : List Char) : List Char × List Char :=
  (s.takeWhile Text.isDigit, s.dropWhile Text.isDigit)

/-- Reads digits up to the end of the token. -/
def wholeDigits? (s : List Char) : Option Nat :=
  if !s.isEmpty && s.all Text.isDigit then some (Text.digitsValue s) else none

/-- Reads the exponent at the end of a numeral; nothing at all is the exponent zero. -/
def exponent? : List Char → Option Int
  | [] => some 0
  | c :: s =>
    if c = 'e' || c = 'E' then
      let (negative, digits) := splitSign s
      (wholeDigits? digits).map fun n => if negative then -(n : Int) else n
    else none

/-- Reads a double without its sign: digits with a point among them or an exponent after them. -/
def unsignedDouble? (negative : Bool) (s : List Char) : Option Double :=
  let (whole, rest) := splitDigits s
  match rest with
  | '.' :: rest =>
    let (fraction, rest) := splitDigits rest
    if whole.isEmpty && fraction.isEmpty then none
    else (exponent? rest).map fun e =>
      Double.ofDigits negative (Text.digitsValue (whole ++ fraction)) (e - fraction.length)
  | [] => none
  | rest =>
    if whole.isEmpty then none
    else (exponent? rest).map fun e => Double.ofDigits negative (Text.digitsValue whole) e

/-- Whether the token begins like a number and goes on with word characters and dots. -/
def looksLikeNumber (s : List Char) : Bool :=
  let (whole, rest) := splitDigits (splitSign s).2
  let wordy (r : List Char) : Bool := r.all fun c => Text.isWordChar c || c = '.'
  match rest with
  | '.' :: rest =>
    if whole.isEmpty then (rest.head?.any Text.isDigit) && wordy rest else wordy rest
  | c :: rest => !whole.isEmpty && (c.isAlpha || c = '_') && wordy rest
  | [] => false

/-- The datum that a symbol token denotes. -/
def parse (token : String) : Except Failure Datum :=
  let s := token.toList
  let (negative, digits) := splitSign s
  if !digits.isEmpty && digits.all Text.isDigit then
    if Number.maxDigits < digits.length then .error (.tooManyDigits digits.length)
    else
      let n : Int := Text.digitsValue digits
      .ok (.num (.int (if negative then -n else n)))
  else
    match unsignedDouble? negative digits with
    | some x => .ok (.num (.float x))
    | none =>
      if looksLikeNumber s then .error .malformedNumber
      else if Text.lower s = ['n', 'i', 'l'] then .ok .nil
      else if token = "true" then .ok (.bool true)
      else if token = "false" then .ok (.bool false)
      else .ok (.sym ⟨token⟩)

end TemplateLisp.Atom
