import TemplateLisp.Text.Printable

/-!
# Quoted texts

How a message shows a text: between quotes, with the quote, the backslash, the line ends and
everything that is not printable escaped. Apostrophes are the quotes unless the text holds an
apostrophe and no double quote.
-/

namespace TemplateLisp.Text

/-- The lower-case hexadecimal digit of `n`, for `n < 16`. -/
def hexDigit (n : Nat) : Char :=
  if n < 10 then Char.ofNat (48 + n) else Char.ofNat (87 + n)

/-- `n` in exactly `width` hexadecimal digits. -/
def hexDigits : (width : Nat) → (n : Nat) → List Char
  | 0, _ => []
  | w + 1, n => hexDigits w (n / 16) ++ [hexDigit (n % 16)]

/-- The quote that a text is shown between. -/
def quoteFor (s : List Char) : Char :=
  if s.contains '\'' && !s.contains '"' then '"' else '\''

/-- A character inside a quoted text. -/
def quotedChar (quote c : Char) : List Char :=
  if c = quote || c = '\\' then ['\\', c]
  else if c = '\n' then ['\\', 'n']
  else if c = '\r' then ['\\', 'r']
  else if c = '\t' then ['\\', 't']
  else if isPrintable c then [c]
  else if c.toNat < 0x100 then '\\' :: 'x' :: hexDigits 2 c.toNat
  else if c.toNat < 0x10000 then '\\' :: 'u' :: hexDigits 4 c.toNat
  else '\\' :: 'U' :: hexDigits 8 c.toNat

/-- The text between quotes. -/
def quoted (s : String) : String :=
  let quote := quoteFor s.toList
  String.ofList ([quote] ++ s.toList.flatMap (quotedChar quote) ++ [quote])

/-- Code points between quotes; half of a surrogate pair is not printable. -/
def quotedCodes (codes : List Nat) : String :=
  let quote := quoteFor (codes.map Char.ofNat)
  let quotedCode (n : Nat) : List Char :=
    if n.isValidChar then quotedChar quote (Char.ofNat n) else '\\' :: 'u' :: hexDigits 4 n
  String.ofList ([quote] ++ codes.flatMap quotedCode ++ [quote])

/-- A byte inside a quoted byte string; only ASCII bytes are shown as characters. -/
def quotedByte (quote : Char) (b : UInt8) : List Char :=
  let c := Char.ofNat b.toNat
  if c = quote || c = '\\' then ['\\', c]
  else if c = '\n' then ['\\', 'n']
  else if c = '\r' then ['\\', 'r']
  else if c = '\t' then ['\\', 't']
  else if 32 ≤ b.toNat && b.toNat < 127 then [c]
  else '\\' :: 'x' :: hexDigits 2 b.toNat

/-- A byte string between quotes, marked with a leading `b`. -/
def quotedBytes (bs : List UInt8) : String :=
  let quote := quoteFor (bs.map fun b => Char.ofNat b.toNat)
  String.ofList (['b', quote] ++ bs.flatMap (quotedByte quote) ++ [quote])

end TemplateLisp.Text
