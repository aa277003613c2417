import TemplateLisp.Builtin.Argument

/-!
# Arithmetic

Sums, differences, products and quotients fold their operation over the arguments from the left.
Operands that do not mix are a type error of the later one; an operation without a result is a
failure of the host, except division by zero, which is an error of its own.
-/

namespace TemplateLisp.Arithmetic

/-- The outcome of an operation that mixes nothing. -/
def settle : Except NumberFault Number → Run Value
  | .ok n => Run.number n
  | .error f => Run.crash (.number f)

/-- Folds an operation over arguments, the first of which has the given index. -/
def fold (name : String) (op : Number → Number → Except NumberFault Number) :
    (index : Nat) → (acc : Number) → List Value → Run Number
  | _, acc, [] => pure acc
  | i, acc, v :: vs => do
    let x ← Argument.number name i v
    match op acc x with
    | .ok n => fold name op (i + 1) n vs
    | .error .mixed =>
      Run.wrongArgument name i ("compatible with " ++ (← Run.typeName (.num acc))) v
    | .error .zeroDivisor => Run.fail .divisionByZero
    | .error f => Run.crash (.number f)

/-- The sum; of no arguments zero. -/
def sum : List Value → Run Value
  | [] => pure (.int 0)
  | [v] => do return .num (← Argument.number "+" 0 v)
  | v :: vs => do Run.number (← fold "+" Number.add 1 (← Argument.number "+" 0 v) vs)

/-- The first argument less the others; of one argument its negation. -/
def difference (v : Value) (vs : List Value) : Run Value := do
  let first ← Argument.number "-" 0 v
  if vs.isEmpty then settle first.neg else Run.number (← fold "-" Number.sub 1 first vs)

/-- The product; of no arguments one. -/
def product (args : List Value) : Run Value := do
  Run.number (← fold "*" Number.mul 0 (.int 1) args)

/-- The first argument divided by the others; of one argument its reciprocal. -/
def quotient (v : Value) (vs : List Value) : Run Value := do
  let first ← Argument.number "/" 0 v
  if vs.isEmpty then
    match Number.div (.int 1) first with
    | .error .zeroDivisor => Run.fail .divisionByZero
    | r => settle r
  else Run.number (← fold "/" Number.div 1 first vs)

/-- The remainder. -/
def remainder (u v : Value) : Run Value := do
  let n ← Argument.number "mod" 0 u
  let d ← Argument.number "mod" 1 v
  match n.mod d with
  | .error .zeroDivisor => Run.fail .moduloByZero
  | .error .mixed =>
    let left ← Run.look (·.qualifiedTypeName u)
    let right ← Run.look (·.qualifiedTypeName v)
    Run.crash (.remainderMixed left right)
  | r => settle r

/-- One more. -/
def increment (v : Value) : Run Value := do
  settle ((← Argument.number "inc" 0 v).add (.int 1))

/-- One less. -/
def decrement (v : Value) : Run Value := do
  settle ((← Argument.number "dec" 0 v).sub (.int 1))

/-- Whether the number is zero. -/
def isZero (v : Value) : Run Value := do
  return .bool (← Argument.number "zero?" 0 v).isZero

/-- Whether the remainder by two is zero. -/
def isMultipleOfTwo (name : String) (v : Value) : Run Bool := do
  match (← Argument.number name 0 v).mod (.int 2) with
  | .ok r => return r.isZero
  | .error f => Run.crash (.number f)

/-- Whether the number is even. -/
def isEven (v : Value) : Run Value := do return .bool (← isMultipleOfTwo "even?" v)

/-- Whether the number is odd. -/
def isOdd (v : Value) : Run Value := do return .bool !(← isMultipleOfTwo "odd?" v)

end TemplateLisp.Arithmetic
