import TemplateLisp.Builtin.Argument

/-!
# Comparison

Equality of any values and order of numbers or of texts. Both take any number of arguments: all must
equal the first, and each must stand in order with the next.
-/

namespace TemplateLisp.Comparison

/-- Whether all values equal the first. -/
def allEqual (room : Room) (first : Value) : List Value → Run Bool
  | [] => pure true
  | v :: vs => do
    if ← Run.lookOrStop fun w => w.equal room first v then allEqual room first vs
    else return false

/-- Equality of the language. -/
def equal (room : Room) (v : Value) (vs : List Value) : Run Value := do
  return .bool (← allEqual room v vs)

/-- Inequality. -/
def differ (room : Room) (v : Value) (vs : List Value) : Run Value := do
  return .bool !(← allEqual room v vs)

/-- The four orders. -/
inductive Order where
  | less
  | lessEq
  | greater
  | greaterEq
deriving DecidableEq, Inhabited, Repr

namespace Order

/-- The name of the function that tests the order. -/
def name : Order → String
  | .less => "<"
  | .lessEq => "<="
  | .greater => ">"
  | .greaterEq => ">="

/-- Whether two numbers stand in the order. -/
def ofNumbers : Order → Number → Number → Except NumberFault Bool
  | .less, a, b => a.lt b
  | .lessEq, a, b => a.le b
  | .greater, a, b => b.lt a
  | .greaterEq, a, b => b.le a

/-- Whether two texts stand in the order, character by character. -/
def ofTexts : Order → String → String → Bool
  | .less, s, t => s < t
  | .lessEq, s, t => ¬ t < s
  | .greater, s, t => t < s
  | .greaterEq, s, t => ¬ s < t

end Order

/-- Stops at an argument that is neither a number nor a text. -/
def checkComparable (name : String) : (index : Nat) → List Value → Run Unit
  | _, [] => pure ()
  | i, .num _ :: vs => checkComparable name (i + 1) vs
  | i, .str _ :: vs => checkComparable name (i + 1) vs
  | i, v :: _ => Run.wrongArgument name i "a number or string" v

/-- Whether each value stands in order with the next; the first of `vs` has the given index. -/
def inOrder (o : Order) : (index : Nat) → Value → List Value → Run Bool
  | _, _, [] => pure true
  | i, u, v :: vs => do
    let holds ← match u, v with
      | .num a, .num b =>
        match o.ofNumbers a b with
        | .ok holds => pure holds
        | .error f => Run.crash (.number f)
      | .str s, .str t => pure (o.ofTexts s t)
      | u, v => Run.wrongArgument o.name i ("comparable with " ++ (← Run.typeName u)) v
    if holds then inOrder o (i + 1) v vs else return false

/-- Tests an order on all neighbours. -/
def ordered (o : Order) (v : Value) (vs : List Value) : Run Value := do
  checkComparable o.name 0 (v :: vs)
  return .bool (← inOrder o 1 v vs)

end TemplateLisp.Comparison
