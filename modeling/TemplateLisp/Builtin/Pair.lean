import TemplateLisp.Builtin.Argument

/-!
# Pairs

Making pairs, taking them apart and changing them. The two halves of `nil` are `nil`.
-/

namespace TemplateLisp.Pair

/-- The first half. -/
def first : Value → Run Value
  | .nil => pure .nil
  | .cell r => Run.look fun w => (w.cell r).car
  | v => Run.wrongArgument "car" 0 "a list" v

/-- The second half. -/
def second : Value → Run Value
  | .nil => pure .nil
  | .cell r => Run.look fun w => (w.cell r).cdr
  | v => Run.wrongArgument "cdr" 0 "a list" v

/-- Replaces the first half. -/
def setFirst (u v : Value) : Run Value := do
  match u with
  | .cell r =>
    modify (·.setCar r v)
    return v
  | _ => Run.wrongArgument "set-car!" 0 "a pair" u

/-- Replaces the second half. -/
def setSecond (u v : Value) : Run Value := do
  match u with
  | .cell r =>
    modify (·.setCdr r v)
    return v
  | _ => Run.wrongArgument "set-cdr!" 0 "a pair" u

end TemplateLisp.Pair
