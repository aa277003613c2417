import TemplateLisp.Datum.Basic

/-!
# Printing data

`Datum.text true` is the readable form, in which texts are quoted and escaped so that reading gives
them back; `Datum.text false` is the display form, in which texts stand as they are. Keys of maps
are always readable. A two-element list headed by one of the four quoting symbols is printed with
the mark that the reader knows for it.
-/

namespace TemplateLisp

/-- The mark that stands for a quoting symbol. -/
def quoteMark? (s : Symbol) : Option String :=
  if s.name = "quote" then some "'"
  else if s.name = "quasiquote" then some "`"
  else if s.name = "unquote" then some ","
  else if s.name = "unquote-splicing" then some ",@"
  else none

/-- A character inside a readable text. -/
def escapeChar (c : Char) : List Char :=
  if c = '\\' then ['\\', '\\']
  else if c = '"' then ['\\', '"']
  else if c = '\n' then ['\\', 'n']
  else if c = '\t' then ['\\', 't']
  else if c = '\r' then ['\\', 'r']
  else [c]

/-- A text in double quotes, as the reader takes it. -/
def stringLiteral (s : String) : String :=
  String.ofList (['"'] ++ s.toList.flatMap escapeChar ++ ['"'])

/-- The text of a number; the number of its digits is not looked at here. -/
def numberText : Number → String
  | .int n => toString n
  | .float x => x.text
  | .dec d => d.text

namespace Datum

/-- The text of a datum that holds no others. -/
def atomText (readable : Bool) : Datum → String
  | .nil => "nil"
  | .null => "nil"
  | .bool b => if b then "true" else "false"
  | .num n => numberText n
  | .str s => if readable then stringLiteral s else s
  | .wide s => if readable then stringLiteral s.narrow else s.narrow
  | .sym s => s.name
  | .leaf text _ => text
  | _ => ""

mutual
/-- Appends the text of a datum to `out`. -/
def write (readable : Bool) (out : String) : Datum → String
  | .vector items => writeItems readable (out ++ "[") items ++ "]"
  | .tuple items => writeItems readable (out ++ "[") items ++ "]"
  | .map entries => writeEntries readable (out ++ "\x7b") entries ++ "\x7d"
  | .cons _ (.sym s) (.cons _ d .nil) =>
    match quoteMark? s with
    | some mark => write readable (out ++ mark) d
    | none => write readable (out ++ "(" ++ s.name ++ " ") d ++ ")"
  | .cons _ car cdr => writeTail readable (write readable (out ++ "(") car) cdr
  | d => out ++ atomText readable d
termination_by structural d => d

/-- Appends the rest of a list whose first element has been written. -/
def writeTail (readable : Bool) (out : String) : Datum → String
  | .nil => out ++ ")"
  | .cons _ car cdr => writeTail readable (write readable (out ++ " ") car) cdr
  | .vector items => writeItems readable (out ++ " . [") items ++ "])"
  | .tuple items => writeItems readable (out ++ " . [") items ++ "])"
  | .map entries => writeEntries readable (out ++ " . \x7b") entries ++ "\x7d)"
  | d => out ++ " . " ++ atomText readable d ++ ")"
termination_by structural d => d

/-- Appends data with blanks between them. -/
def writeItems (readable : Bool) (out : String) : List Datum → String
  | [] => out
  | [d] => write readable out d
  | d :: ds => writeItems readable (write readable out d ++ " ") ds
termination_by structural ds => ds

/-- Appends keys and values with blanks between them. -/
def writeEntries (readable : Bool) (out : String) : List (Datum × Datum) → String
  | [] => out
  | [e] => writeEntry readable out e
  | e :: rest => writeEntries readable (writeEntry readable out e ++ " ") rest
termination_by structural es => es

/-- Appends a key and its value. -/
def writeEntry (readable : Bool) (out : String) : Datum × Datum → String
  | (k, v) => write readable (write true out k ++ " ") v
termination_by structural e => e
end

/-- The text of a datum, readable or for display. -/
def text (readable : Bool) (d : Datum) : String := write readable "" d

end Datum

end TemplateLisp
