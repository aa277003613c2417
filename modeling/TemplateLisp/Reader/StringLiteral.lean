import TemplateLisp.Fault

/-!
# String literals

The text that a string token denotes, as code points: an escape may name half of a surrogate pair,
which is no character. A backslash starts an escape, a line end of any of the three kinds becomes a
line feed, and a line end right after a backslash vanishes.
-/

namespace TemplateLisp.StringLiteral

/-- Why a literal denotes no text. -/
inductive Failure where
  | badUnicodeEscape (digits : String)
  /-- The body ends in a backslash; the lexer never cuts such a literal. -/
  | openEscape
deriving DecidableEq, Inhabited

/-- The value of an ASCII hexadecimal digit. -/
def hexValue? (c : Char) : Option Nat :=
  if '0' ≤ c && c ≤ '9' then some (c.toNat - 48)
  else if 'a' ≤ c && c ≤ 'f' then some (c.toNat - 87)
  else if 'A' ≤ c && c ≤ 'F' then some (c.toNat - 55)
  else none

/-- The code point with the given four hexadecimal digits. -/
def unicodeCode? (a b c d : Char) : Option Nat := do
  let w ← hexValue? a
  let x ← hexValue? b
  let y ← hexValue? c
  let z ← hexValue? d
  return ((w * 16 + x) * 16 + y) * 16 + z

/-- The character that a one-letter escape stands for; any other character stands for itself. -/
def escaped (c : Char) : Char :=
  if c = 'n' then '\n'
  else if c = 't' then '\t'
  else if c = 'r' then '\r'
  else if c = '0' then Char.ofNat 0
  else c

/-- Decodes a body, pushing code points onto `out`. -/
def decodeBody (out : List Nat) : List Char → Except Failure (List Nat)
  | [] => .ok out.reverse
  | ['\\'] => .error .openEscape
  | '\\' :: '\n' :: rest => decodeBody out rest
  | '\\' :: '\r' :: '\n' :: rest => decodeBody out rest
  | '\\' :: '\r' :: rest => decodeBody out rest
  | '\\' :: 'u' :: a :: b :: c :: d :: rest =>
    match unicodeCode? a b c d with
    | some code => decodeBody (code :: out) rest
    | none => .error (.badUnicodeEscape (String.ofList [a, b, c, d]))
  | '\\' :: 'u' :: digits => .error (.badUnicodeEscape (String.ofList digits))
  | '\\' :: c :: rest => decodeBody ((escaped c).toNat :: out) rest
  | '\r' :: '\n' :: rest => decodeBody ('\n'.toNat :: out) rest
  | '\r' :: rest => decodeBody ('\n'.toNat :: out) rest
  | c :: rest => decodeBody (c.toNat :: out) rest

/-- The code points between the first and the last character of a literal, decoded. -/
def decode (literal : String) : Except Failure (List Nat) :=
  decodeBody [] literal.toList.tail.dropLast

theorem decode_ofList (body : List Char) :
    decode (String.ofList ('"' :: (body ++ ['"']))) = decodeBody [] body := by
  rw [decode, String.toList_ofList, List.tail_cons, List.dropLast_concat]

end TemplateLisp.StringLiteral
