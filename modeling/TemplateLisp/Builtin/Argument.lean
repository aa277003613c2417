import TemplateLisp.Sequence

/-!
# Arguments of built-in functions

How many arguments a function takes and of what shape. `name` is the name that messages give the
function, and arguments are counted from zero.
-/

namespace TemplateLisp

namespace Argument

/-- Stops because the number of arguments is wrong. -/
def miscounted (name : String) (expected : ArgumentCount) (args : List Value) : Run Value :=
  Run.fail (.arity (.builtin name expected args.length))

/-- A function of one argument. -/
def unary (name : String) (f : Value → Run Value) : List Value → Run Value
  | [v] => f v
  | args => miscounted name (.exactly 1) args

/-- A function of two arguments. -/
def binary (name : String) (f : Value → Value → Run Value) : List Value → Run Value
  | [u, v] => f u v
  | args => miscounted name (.exactly 2) args

/-- A function of three arguments. -/
def ternary (name : String) (f : Value → Value → Value → Run Value) : List Value → Run Value
  | [u, v, w] => f u v w
  | args => miscounted name (.exactly 3) args

/-- A function of one argument and an optional second. -/
def unaryOrBinary (name : String) (f : Value → Option Value → Run Value) : List Value → Run Value
  | [u] => f u none
  | [u, v] => f u (some v)
  | args => miscounted name (.between 1 2) args

/-- A function of two arguments and an optional third. -/
def binaryOrTernary (name : String) (f : Value → Value → Option Value → Run Value) :
    List Value → Run Value
  | [u, v] => f u v none
  | [u, v, w] => f u v (some w)
  | args => miscounted name (.between 2 3) args

/-- A function of at least one argument. -/
def oneOrMore (name : String) (f : Value → List Value → Run Value) : List Value → Run Value
  | v :: vs => f v vs
  | [] => miscounted name (.atLeast 1) []

/-- A function of at least two arguments. -/
def twoOrMore (name : String) (f : Value → Value → List Value → Run Value) :
    List Value → Run Value
  | u :: v :: vs => f u v vs
  | args => miscounted name (.atLeast 2) args

/-- An argument that must be a number. -/
def number (name : String) (index : Nat) : Value → Run Number
  | .num n => pure n
  | v => Run.wrongArgument name index "a number" v

/-- An argument that must be an integer. -/
def integer (name : String) (index : Nat) : Value → Run Int
  | .num (.int n) => pure n
  | v => Run.wrongArgument name index "an integer" v

/-- An argument that must be a text. -/
def text (name : String) (index : Nat) : Value → Run String
  | .str s => pure s
  | v => Run.wrongArgument name index "a string" v

/-- An argument that must be callable. -/
def function (name : String) (index : Nat) (v : Value) : Run Value :=
  if v.isCallable then pure v else Run.wrongArgument name index "a function" v

end Argument

end TemplateLisp
