import TemplateLisp.Builtin.Argument
import TemplateLisp.Text.Case

/-!
# Texts and output

Functions on texts, and the functions that write. What is written, and what `str` and `string-join`
put together, is the display text of the values.
-/

namespace TemplateLisp

namespace Run

/-- The display texts of values, one after the other. -/
def displayAll (room : Room) (vs : List Value) : Run String := do
  return String.join (← vs.mapM (displayed room))

/-- Writes values. -/
def print (room : Room) (ending : String) (vs : List Value) : Run Value := do
  let text ← displayAll room vs
  modify (·.emit (text ++ ending))
  return .nil

end Run

namespace Texts

/-- A text in lower case. -/
def lowerCase (v : Value) : Run Value := do
  return .str (String.ofList (Text.lower (← Argument.text "lower-case" 0 v).toList))

/-- A text in upper case. -/
def upperCase (v : Value) : Run Value := do
  return .str (String.ofList (Text.upper (← Argument.text "upper-case" 0 v).toList))

/-- The display texts of values, put together. -/
def concat (room : Room) (vs : List Value) : Run Value := do return .str (← Run.displayAll room vs)

/-- The display texts of the elements of a sequence, with a text between them. -/
def join [Host] (room : Room) (u v : Value) : Run Value := do
  let between ← Argument.text "string-join" 0 u
  let c ← Run.cursor "string-join" 1 v
  return .str (between.intercalate (← c.map room (Run.displayed room)))

/-- The name of a symbol. -/
def ofSymbol : Value → Run Value
  | .sym s => pure (.str s.name)
  | v => Run.wrongArgument "symbol->string" 0 "a symbol" v

/-- The symbol with a name. -/
def toSymbol (v : Value) : Run Value := do
  return .sym ⟨← Argument.text "string->symbol" 0 v⟩

end Texts

end TemplateLisp
