import TemplateLisp.Fault
import TemplateLisp.Text.Blank

/-!
# Tokens

`lex` cuts a source text into tokens with their places. It is a scan from left to right, one
character at a time: a `Mode` says what the characters before have begun. Blanks and comments, which
run from a semicolon to the end of their line, only separate tokens. The scan ends at the end of the
text or at a string that is not closed; the tokens before that are kept.
-/

namespace TemplateLisp

/-- The kinds of token. -/
inductive TokenKind where
  | quote
  | unquote
  | openParen
  | closeParen
  | openBracket
  | closeBracket
  | openBrace
  | closeBrace
  | string
  | symbol
deriving DecidableEq, Inhabited, Repr

/-- Whether the token closes a bracket. -/
def TokenKind.isCloser : TokenKind → Bool
  | .closeParen => true
  | .closeBracket => true
  | .closeBrace => true
  | _ => false

/-- A token: its kind, the text it was cut from and the place of its first character. -/
structure Token where
  kind : TokenKind
  text : String
  pos : Pos
deriving DecidableEq, Inhabited, Repr

/-- The place after a character. -/
def Pos.after (p : Pos) (c : Char) : Pos :=
  if c = '\n' then ⟨p.line + 1, 1⟩ else ⟨p.line, p.column + 1⟩

/-- The first place of a text. -/
def Pos.start : Pos := ⟨1, 1⟩

namespace Lexer

/-- The bracket or quote that a character is by itself. -/
def single? (c : Char) : Option TokenKind :=
  if c = '\'' || c = '`' then some .quote
  else if c = '(' then some .openParen
  else if c = ')' then some .closeParen
  else if c = '[' then some .openBracket
  else if c = ']' then some .closeBracket
  else if c = '\x7b' then some .openBrace
  else if c = '\x7d' then some .closeBrace
  else none

/-- Whether a character may stand in a symbol or number. -/
def isSymbolChar (c : Char) : Bool :=
  !(Text.isBlank c || (single? c).isSome || c = '"' || c = ',' || c = ';')

/-- What the characters before the current one have begun. Lexemes are kept last character first. -/
inductive Mode where
  | between
  | comment
  /-- After a comma, which an at sign may follow. -/
  | comma (start : Pos)
  /-- Inside a string, after a backslash when `escaped`. -/
  | string (start : Pos) (escaped : Bool) (lexeme : List Char)
  | symbol (start : Pos) (lexeme : List Char)
deriving DecidableEq, Inhabited

/-- A token from a lexeme kept last character first. -/
def token (kind : TokenKind) (start : Pos) (lexeme : List Char) : Token :=
  ⟨kind, String.ofList lexeme.reverse, start⟩

/-- A fault and its place. -/
abbrev Fault := SyntaxFault × Pos

/-- The step on a character at which nothing is begun. Tokens are pushed onto `out`. -/
def begin (out : List Token) (p : Pos) (c : Char) : Except Fault (List Token × Mode) :=
  if Text.isBlank c then .ok (out, .between)
  else
    match single? c with
    | some kind => .ok (token kind p [c] :: out, .between)
    | none =>
      if c = ';' then .ok (out, .comment)
      else if c = ',' then .ok (out, .comma p)
      else if c = '"' then .ok (out, .string p false ['"'])
      else if isSymbolChar c then .ok (out, .symbol p [c])
      else .error (.unexpectedChar c, p)

/-- The step on a character. -/
def step (out : List Token) (p : Pos) (c : Char) : Mode → Except Fault (List Token × Mode)
  | .between => begin out p c
  | .comment => .ok (out, if c = '\n' then .between else .comment)
  | .comma start =>
    if c = '@' then .ok (token .unquote start ['@', ','] :: out, .between)
    else begin (token .unquote start [','] :: out) p c
  | .string start escaped lexeme =>
    if escaped then .ok (out, .string start false (c :: lexeme))
    else if c = '\\' then .ok (out, .string start true (c :: lexeme))
    else if c = '"' then .ok (token .string start (c :: lexeme) :: out, .between)
    else .ok (out, .string start false (c :: lexeme))
  | .symbol start lexeme =>
    if isSymbolChar c then .ok (out, .symbol start (c :: lexeme))
    else begin (token .symbol start lexeme :: out) p c

/-- What the end of the text makes of what is begun. -/
def finish (out : List Token) : Mode → List Token × Option Fault
  | .between => (out, none)
  | .comment => (out, none)
  | .comma start => (token .unquote start [','] :: out, none)
  | .string start _ _ => (out, some (.unterminatedString, start))
  | .symbol start lexeme => (token .symbol start lexeme :: out, none)

/-- Scans the text at `p`, pushing tokens onto `out`. -/
def scan (out : List Token) (mode : Mode) (p : Pos) : List Char → List Token × Option Fault
  | [] => finish out mode
  | c :: cs =>
    match step out p c mode with
    | .ok (out, mode) => scan out mode (p.after c) cs
    | .error fault => (out, some fault)

end Lexer

/-- The tokens of a source text, up to the fault that ends the scan if there is one. -/
structure Lexed where
  tokens : List Token
  fault : Option (SyntaxFault × Pos)

/-- Cuts a source text into tokens. -/
def lex (source : List Char) : Lexed :=
  let (out, fault) := Lexer.scan [] .between .start source
  ⟨out.reverse, fault⟩

end TemplateLisp
