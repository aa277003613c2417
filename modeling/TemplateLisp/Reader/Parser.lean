import TemplateLisp.Datum.Shown
import TemplateLisp.Reader.Atom
import TemplateLisp.Reader.StringLiteral
import TemplateLisp.Reader.Token
import TemplateLisp.Room

/-!
# Reading

`read` turns a source text into the data it denotes, `readOne` reads exactly one datum. The parser
is recursive descent over the tokens with one token of look-ahead. A fault of the lexer counts only
when the parser asks for the token that it took the place of, so an earlier fault of the parser
wins.

Every list read from a source carries the place of its opening bracket or quote mark.
-/

namespace TemplateLisp

/-- Why a text cannot be read. -/
inductive ReadFailure where
  | fault (f : SyntaxFault) (pos : Option Pos)
  /-- An integer literal has more digits than may be read. -/
  | literalTooLong (digits : Nat)
  /-- The text is nested more deeply than there is room for. -/
  | tooDeep
deriving DecidableEq, Inhabited

namespace Parser

/-- A fault at the place of a token. -/
def faultAt {α : Type} (f : SyntaxFault) (t : Token) : Except ReadFailure α :=
  .error (.fault f (some t.pos))

/-- The failure at the end of the tokens: the fault that ended the scan, or else `other`. -/
def atEnd {α : Type} (ending : Option (SyntaxFault × Pos)) (other : ReadFailure) :
    Except ReadFailure α :=
  match ending with
  | some (f, p) => .error (.fault f (some p))
  | none => .error other

/-- The datum of a symbol token. -/
def atom (t : Token) : Except ReadFailure Datum :=
  match Atom.parse t.text with
  | .ok d => .ok d
  | .error .malformedNumber => faultAt (.malformedNumber t.text) t
  | .error (.tooManyDigits n) => .error (.literalTooLong n)

/-- The datum of a string token. -/
def string (t : Token) : Except ReadFailure Datum :=
  match StringLiteral.decode t.text with
  | .ok codes => .ok (.ofCodes codes)
  | .error (.badUnicodeEscape digits) => faultAt (.badUnicodeEscape digits) t
  | .error .openEscape => faultAt .unterminatedString t

/-- The symbol that a quote mark stands for. -/
def quoteSymbol (mark : String) : Symbol :=
  if mark = "'" then ⟨"quote"⟩
  else if mark = "`" then ⟨"quasiquote"⟩
  else if mark = "," then ⟨"unquote"⟩
  else ⟨"unquote-splicing"⟩

/-- Whether `closer` closes `opener`. -/
def closes (opener closer : TokenKind) : Bool :=
  match opener, closer with
  | .openParen, .closeParen => true
  | .openBracket, .closeBracket => true
  | .openBrace, .closeBrace => true
  | _, _ => false

/-- The fault of a closing bracket that closes another kind of bracket. -/
def mismatch (opener closer : Token) : SyntaxFault :=
  .mismatched closer.text opener.text opener.pos

/-- Whether the token is the dot in front of the last tail of a list. -/
def isDot (opener t : Token) : Bool :=
  opener.kind = .openParen && t.kind = .symbol && t.text = "."

/-- Pairs keys with values; a last key without a value is left out. -/
def pairUp : List Datum → List (Datum × Datum)
  | k :: v :: rest => (k, v) :: pairUp rest
  | _ => []

/-- The map of the given entries, written one after the other; fails at the first key that is no
atom. -/
def mapOf (opener : Token) : List (Datum × Datum) → List (Datum × Datum) → Except ReadFailure Datum
  | written, [] => .ok (.map written)
  | written, (k, v) :: rest =>
    if k.isAtom then mapOf opener (Datum.putEntry k v written) rest
    else faultAt (.badMapKey k.shown) opener

/-- The datum between an opening bracket and its closing one. -/
def enclosed (opener : Token) (items : List Datum) (tail : Datum) : Except ReadFailure Datum :=
  match opener.kind with
  | .openBracket => .ok (.vector items)
  | .openBrace =>
    if items.length % 2 = 1 then faultAt (.oddMap items.length) opener
    else mapOf opener [] (pairUp items)
  | _ => .ok (Datum.ofList (some opener.pos) tail items)

mutual
/-- Reads one datum. `fuel` bounds the number of steps; twice the number of tokens is enough. -/
def form (ending : Option (SyntaxFault × Pos)) (fuel : Nat) (room : Room) (tokens : List Token) :
    Except ReadFailure (Datum × List Token) :=
  match fuel, tokens with
  | 0, _ => .error .tooDeep
  | _ + 1, [] => atEnd ending (.fault .endOfInput none)
  | n + 1, t :: ts =>
    match t.kind with
    | .symbol => (atom t).map (·, ts)
    | .string => (string t).map (·, ts)
    | .quote => quoted ending n room t ts
    | .unquote => quoted ending n room t ts
    | .openParen => bracketed ending n room t ts
    | .openBracket => bracketed ending n room t ts
    | .openBrace => bracketed ending n room t ts
    | _ => faultAt (.unexpectedToken t.text) t
termination_by structural fuel

/-- Reads the datum after a quote mark. -/
def quoted (ending : Option (SyntaxFault × Pos)) (fuel : Nat) (room : Room) (mark : Token)
    (tokens : List Token) : Except ReadFailure (Datum × List Token) :=
  match fuel, tokens with
  | 0, _ => .error .tooDeep
  | _ + 1, [] => atEnd ending (.fault (.formExpectedAfter mark.text) (some mark.pos))
  | n + 1, t :: ts =>
    if t.kind.isCloser then faultAt (.formExpectedAfter mark.text) mark
    else
      match room.enter? with
      | none => .error .tooDeep
      | some room => do
        let (d, rest) ← form ending n room (t :: ts)
        return (Datum.ofList (some mark.pos) .nil [.sym (quoteSymbol mark.text), d], rest)
termination_by structural fuel

/-- Reads what stands between `opener` and its closing bracket. -/
def bracketed (ending : Option (SyntaxFault × Pos)) (fuel : Nat) (room : Room) (opener : Token)
    (tokens : List Token) : Except ReadFailure (Datum × List Token) :=
  match fuel, room.enter? with
  | 0, _ => .error .tooDeep
  | _ + 1, none => .error .tooDeep
  | n + 1, some room => do
    let ((found, tail), rest) ← items ending n room opener [] tokens
    return (← enclosed opener found tail, rest)
termination_by structural fuel

/-- Reads elements up to the closing bracket; `found` holds those before, last one first. -/
def items (ending : Option (SyntaxFault × Pos)) (fuel : Nat) (room : Room) (opener : Token)
    (found : List Datum) (tokens : List Token) :
    Except ReadFailure ((List Datum × Datum) × List Token) :=
  match fuel, tokens with
  | 0, _ => .error .tooDeep
  | _ + 1, [] => atEnd ending (.fault (.unmatched opener.text) (some opener.pos))
  | n + 1, t :: ts =>
    if t.kind.isCloser then
      if closes opener.kind t.kind then .ok ((found.reverse, .nil), ts)
      else faultAt (mismatch opener t) t
    else if isDot opener t then
      if found.isEmpty then faultAt .nothingBeforeDot t
      else
        match ts with
        | [] => atEnd ending (.fault (.unmatched opener.text) (some opener.pos))
        | u :: us => do
          let (d, rest) ← form ending n room (u :: us)
          match rest with
          | [] => atEnd ending (.fault (.unmatched opener.text) (some opener.pos))
          | closer :: rest =>
            if !closer.kind.isCloser then faultAt .closerExpectedAfterTail closer
            else if closes opener.kind closer.kind then .ok ((found.reverse, d), rest)
            else faultAt (mismatch opener closer) closer
    else do
      let (d, rest) ← form ending n room (t :: ts)
      items ending n room opener (d :: found) rest
termination_by structural fuel
end

/-- The number of steps that is enough for so many tokens. -/
def fuelFor (tokens : List Token) : Nat := 3 * tokens.length + 3

/-- Reads data up to the end of the tokens, with `steps` steps for each of them; `found` holds those
before, last one first. -/
def all (ending : Option (SyntaxFault × Pos)) (room : Room) (steps : Nat) :
    (fuel : Nat) → List Datum → List Token → Except ReadFailure (List Datum)
  | 0, _, _ => .error .tooDeep
  | _ + 1, found, [] =>
    match ending with
    | some (f, p) => .error (.fault f (some p))
    | none => .ok found.reverse
  | n + 1, found, t :: ts => do
    let (d, rest) ← form ending steps room (t :: ts)
    all ending room steps n (d :: found) rest

end Parser

/-- Reads every datum of a source text. -/
def read (room : Room) (source : String) : Except ReadFailure (List Datum) :=
  let lexed := lex source.toList
  Parser.all lexed.fault room (Parser.fuelFor lexed.tokens) (lexed.tokens.length + 1) []
    lexed.tokens

/-- Reads exactly one datum; more of them are a fault. -/
def readOne (room : Room) (source : String) : Except ReadFailure Datum := do
  let lexed := lex source.toList
  let (d, rest) ← Parser.form lexed.fault (Parser.fuelFor lexed.tokens) room lexed.tokens
  match rest, lexed.fault with
  | t :: _, _ => Parser.faultAt (.trailingToken t.text) t
  | [], some (f, p) => .error (.fault f (some p))
  | [], none => return d

end TemplateLisp
