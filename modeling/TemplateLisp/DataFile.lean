import TemplateLisp.Datum.Basic
import TemplateLisp.Number.Shortest
import TemplateLisp.Reader.StringLiteral
import TemplateLisp.Room

/-!
# Data files

Data that a program is given is written as JSON. Objects become maps with texts as keys, of which
the last entry with a key wins, and arrays become vectors. `NaN` and the two infinities are numbers
too.
-/

namespace TemplateLisp.DataFile

/-- Why a text is no data. -/
inductive Failure where
  | malformed
  /-- An integer has more digits than may be read. -/
  | tooManyDigits (digits : Nat)
  /-- The data are nested more deeply than there is room for. -/
  | tooDeep
deriving DecidableEq, Inhabited

/-- The text without the blanks at its front. -/
def skipBlanks (s : List Char) : List Char :=
  s.dropWhile fun c => c = ' ' || c = '\t' || c = '\n' || c = '\r'

/-- Whether the character is a digit of a number. -/
def isDigit (c : Char) : Bool := '0' ≤ c && c ≤ '9'

/-- The value of a run of digits. -/
def digitsValue (s : List Char) : Nat := s.foldl (fun n c => 10 * n + (c.toNat - 48)) 0

/-! ## Numbers -/

/-- The integer part at the front: a zero by itself, or digits without a zero in front. -/
def wholePart? (s : List Char) : Option (List Char × List Char) :=
  match s with
  | '0' :: rest => some (['0'], rest)
  | _ =>
    let digits := s.takeWhile isDigit
    if digits.isEmpty then none else some (digits, s.dropWhile isDigit)

/-- The digits behind a point at the front; none if no digit follows it. -/
def fraction (s : List Char) : List Char × List Char :=
  match s with
  | '.' :: rest =>
    if (rest.takeWhile isDigit).isEmpty then ([], s)
    else (rest.takeWhile isDigit, rest.dropWhile isDigit)
  | _ => ([], s)

/-- The sign and digits of an exponent behind its mark, and the rest. -/
def exponentBody? (s : List Char) : Option (Int × List Char) :=
  let (negative, body) := match s with
    | '-' :: rest => (true, rest)
    | '+' :: rest => (false, rest)
    | _ => (false, s)
  let digits := body.takeWhile isDigit
  if digits.isEmpty then none
  else
    let n : Int := digitsValue digits
    some (if negative then -n else n, body.dropWhile isDigit)

/-- The exponent at the front, if there is one, and the rest. -/
def exponent? : List Char → Option (Int × List Char)
  | 'e' :: rest => exponentBody? rest
  | 'E' :: rest => exponentBody? rest
  | _ => none

/-- A number behind its sign. -/
def unsigned (negative : Bool) (s : List Char) : Except Failure (Datum × List Char) :=
  match s with
  | 'I' :: 'n' :: 'f' :: 'i' :: 'n' :: 'i' :: 't' :: 'y' :: rest =>
    .ok (.num (.float (.infinite negative)), rest)
  | _ =>
    match wholePart? s with
    | none => .error .malformed
    | some (whole, afterWhole) =>
      let (decimals, afterFraction) := fraction afterWhole
      match exponent? afterFraction with
      | some (e, rest) =>
        let x := Double.ofDigits negative (digitsValue (whole ++ decimals)) (e - decimals.length)
        .ok (.num (.float x), rest)
      | none =>
        if decimals.isEmpty then
          if Number.maxDigits < whole.length then .error (.tooManyDigits whole.length)
          else
            let n : Int := digitsValue whole
            .ok (.num (.int (if negative then -n else n)), afterFraction)
        else
          let x := Double.ofDigits negative (digitsValue (whole ++ decimals)) (-decimals.length)
          .ok (.num (.float x), afterFraction)

/-! ## Texts -/

/-- The character that two halves make, if they are a pair. -/
def paired? (high low : Nat) : Option Char :=
  if 0xD800 ≤ high && high < 0xDC00 && 0xDC00 ≤ low && low < 0xE000 then
    some (Char.ofNat (0x10000 + (high - 0xD800) * 0x400 + (low - 0xDC00)))
  else none

/-- The character that a one-letter escape stands for. -/
def escaped? (c : Char) : Option Char :=
  match c with
  | '"' => some '"'
  | '\\' => some '\\'
  | '/' => some '/'
  | 'b' => some '\x08'
  | 'f' => some '\x0c'
  | 'n' => some '\n'
  | 'r' => some '\r'
  | 't' => some '\t'
  | _ => none

/-- The text up to the closing quote, in at most `fuel` steps; `found` holds the characters so far,
last one first. Half of a pair without the other half is no character and becomes the null
character. -/
def textBody : (fuel : Nat) → (found : List Char) → List Char → Except Failure (String × List Char)
  | 0, _, _ => .error .malformed
  | _ + 1, _, [] => .error .malformed
  | _ + 1, found, '"' :: rest => .ok (String.ofList found.reverse, rest)
  | n + 1, found, '\\' :: 'u' :: a :: b :: c :: d :: rest =>
    match StringLiteral.unicodeCode? a b c d with
    | none => .error .malformed
    | some high =>
      let single := textBody n (Char.ofNat high :: found) rest
      match rest with
      | '\\' :: 'u' :: e :: f :: g :: h :: more =>
        match (StringLiteral.unicodeCode? e f g h).bind (paired? high) with
        | some ch => textBody n (ch :: found) more
        | none => single
      | _ => single
  | n + 1, found, '\\' :: c :: rest =>
    match escaped? c with
    | some ch => textBody n (ch :: found) rest
    | none => .error .malformed
  | n + 1, found, c :: rest =>
    if c.toNat < 32 || c = '\\' then .error .malformed else textBody n (c :: found) rest

/-! ## Values -/

/-- The words that stand for themselves. -/
def word? : List Char → Option (Datum × List Char)
  | 'n' :: 'u' :: 'l' :: 'l' :: rest => some (.null, rest)
  | 't' :: 'r' :: 'u' :: 'e' :: rest => some (.bool true, rest)
  | 'f' :: 'a' :: 'l' :: 's' :: 'e' :: rest => some (.bool false, rest)
  | 'N' :: 'a' :: 'N' :: rest => some (.num (.float (.nan 0)), rest)
  | _ => none

mutual
/-- A value at the front of a text, and the rest. -/
def value (fuel : Nat) (room : Room) (s : List Char) : Except Failure (Datum × List Char) :=
  match fuel with
  | 0 => .error .malformed
  | n + 1 =>
    match s with
    | '"' :: rest => (textBody (rest.length + 1) [] rest).map fun (t, rest) => (.str t, rest)
    | '[' :: rest =>
      match room.enter? with
      | none => .error .tooDeep
      | some inner =>
        match skipBlanks rest with
        | ']' :: rest => .ok (.vector [], rest)
        | rest => elements n inner [] rest
    | '\x7b' :: rest =>
      match room.enter? with
      | none => .error .tooDeep
      | some inner =>
        match skipBlanks rest with
        | '\x7d' :: rest => .ok (.map [], rest)
        | rest => members n inner [] rest
    | '-' :: rest => unsigned true rest
    | _ =>
      match word? s with
      | some found => .ok found
      | none => unsigned false s
termination_by structural fuel

/-- The rest of an array, from an element on; `found` holds the elements before, last one first. -/
def elements (fuel : Nat) (room : Room) (found : List Datum) (s : List Char) :
    Except Failure (Datum × List Char) :=
  match fuel with
  | 0 => .error .malformed
  | n + 1 => do
    let (d, rest) ← value n room s
    match skipBlanks rest with
    | ']' :: rest => return (.vector (d :: found).reverse, rest)
    | ',' :: rest => elements n room (d :: found) (skipBlanks rest)
    | _ => throw .malformed
termination_by structural fuel

/-- The rest of an object, from a key on. -/
def members (fuel : Nat) (room : Room) (found : List (Datum × Datum)) (s : List Char) :
    Except Failure (Datum × List Char) :=
  match fuel with
  | 0 => .error .malformed
  | n + 1 =>
    match s with
    | '"' :: rest => do
      let (key, rest) ← textBody (rest.length + 1) [] rest
      match skipBlanks rest with
      | ':' :: rest =>
        let (d, rest) ← value n room (skipBlanks rest)
        let found := Datum.putEntry (.str key) d found
        match skipBlanks rest with
        | '\x7d' :: rest => return (.map found, rest)
        | ',' :: rest => members n room found (skipBlanks rest)
        | _ => throw .malformed
      | _ => throw .malformed
    | _ => .error .malformed
termination_by structural fuel
end

/-- The data that a text denotes. -/
def parse (room : Room) (text : String) : Except Failure Datum := do
  let s := skipBlanks text.toList
  let (d, rest) ← value (s.length + 1) room s
  if (skipBlanks rest).isEmpty then return d else throw .malformed

end TemplateLisp.DataFile
