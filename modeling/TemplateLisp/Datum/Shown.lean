import TemplateLisp.Datum.Printer
import TemplateLisp.Text.Quoted

/-!
# Data in messages

Messages show data in a style of their own: atoms and containers as the host writes them, lists as
the language writes them. `Datum.shown` marks the kind of every atom, `Datum.plain` leaves texts,
symbols and decimals bare.
-/

namespace TemplateLisp.Datum

/-- An atom as messages show it. -/
def atomShown : Datum → String
  | .nil => "nil"
  | .null => "None"
  | .bool b => if b then "True" else "False"
  | .num (.dec d) => "Decimal('" ++ d.text ++ "')"
  | .num n => numberText n
  | .str s => Text.quoted s
  | .wide s => Text.quotedCodes s.codes
  | .sym s => "Symbol(" ++ Text.quoted s.name ++ ")"
  | .leaf _ shown => shown
  | _ => ""

mutual
/-- Appends a datum as messages show it. -/
def writeShown (out : String) : Datum → String
  | .cons pos car cdr => write true out (.cons pos car cdr)
  | .vector items => writeShownItems (out ++ "[") items ++ "]"
  | .tuple [] => out ++ "()"
  | .tuple [d] => writeShown (out ++ "(") d ++ ",)"
  | .tuple items => writeShownItems (out ++ "(") items ++ ")"
  | .map entries => writeShownEntries (out ++ "\x7b") entries ++ "\x7d"
  | d => out ++ atomShown d
termination_by structural d => d

/-- Appends data with commas between them. -/
def writeShownItems (out : String) : List Datum → String
  | [] => out
  | [d] => writeShown out d
  | d :: ds => writeShownItems (writeShown out d ++ ", ") ds
termination_by structural ds => ds

/-- Appends entries with commas between them. -/
def writeShownEntries (out : String) : List (Datum × Datum) → String
  | [] => out
  | [e] => writeShownEntry out e
  | e :: es => writeShownEntries (writeShownEntry out e ++ ", ") es
termination_by structural es => es

/-- Appends a key and its value. -/
def writeShownEntry (out : String) : Datum × Datum → String
  | (k, v) => writeShown (writeShown out k ++ ": ") v
termination_by structural e => e
end

/-- A datum as messages show it. -/
def shown (d : Datum) : String := writeShown "" d

/-- A datum as it stands in the middle of a message: texts, symbols and decimals are bare. -/
def plain : Datum → String
  | .str s => s
  | .wide s => s.narrow
  | .sym s => s.name
  | .num n => numberText n
  | .leaf text _ => text
  | d => d.shown

end TemplateLisp.Datum
