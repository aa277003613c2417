import TemplateLisp.Builtin.Arithmetic
import TemplateLisp.Builtin.Comparison
import TemplateLisp.Builtin.Map
import TemplateLisp.Builtin.Pair
import TemplateLisp.Builtin.Sequence
import TemplateLisp.Builtin.Text

/-!
# Built-in functions

What every built-in function does with its evaluated arguments, and the names under which the root
of every interpreter binds them. `call` is how they call functions of the program.
-/

namespace TemplateLisp

namespace Builtin

variable [Host]

/-- Calls a function with the arguments and, spread out, the elements of the last one. -/
def spread (room : Room) (call : Caller) (f : Value) (args : List Value) (last : Value) :
    Run Value := do
  let f ← Argument.function "apply" 0 f
  let c ← Run.cursor "apply" (args.length + 1) last
  call f (args ++ (← c.toList room))

/-- Calls `apply` with its arguments. -/
def applied (room : Room) (call : Caller) (f v : Value) (vs : List Value) : Run Value :=
  spread room call f (v :: vs).dropLast ((v :: vs).getLastD .nil)

/-- A test of one value. -/
def predicate (name : String) (test : Value → Bool) : List Value → Run Value :=
  Argument.unary name fun v => pure (.bool (test v))

/-- Whether the value is a symbol and no keyword. -/
def isPlainSymbol : Value → Bool
  | .sym s => !s.isKeyword
  | _ => false

/-- Whether the value is a keyword. -/
def isKeywordValue : Value → Bool
  | .sym s => s.isKeyword
  | _ => false

/-- Whether the value is a text. -/
def isText : Value → Bool
  | .str _ => true
  | _ => false

/-- Whether the value is `nil` or a pair. -/
def isListValue : Value → Bool
  | .nil => true
  | .cell _ => true
  | _ => false

/-- Whether the value is `nil` or the null of the host. -/
def isNothing : Value → Bool
  | .nil => true
  | .null => true
  | _ => false

open Argument in
/-- What a built-in function does. -/
def run (room : Room) (call : Caller) : Builtin → List Value → Run Value
  | .add => Arithmetic.sum
  | .sub => oneOrMore "-" Arithmetic.difference
  | .mul => Arithmetic.product
  | .div => oneOrMore "/" Arithmetic.quotient
  | .mod => binary "mod" Arithmetic.remainder
  | .inc => unary "inc" Arithmetic.increment
  | .dec => unary "dec" Arithmetic.decrement
  | .equals => oneOrMore "=" (Comparison.equal room)
  | .notEquals => oneOrMore "=" (Comparison.differ room)
  | .less => oneOrMore "<" (Comparison.ordered .less)
  | .lessEq => oneOrMore "<=" (Comparison.ordered .lessEq)
  | .greater => oneOrMore ">" (Comparison.ordered .greater)
  | .greaterEq => oneOrMore ">=" (Comparison.ordered .greaterEq)
  | .not => predicate "not" fun v => !v.isTruthy
  | .isEven => unary "even?" Arithmetic.isEven
  | .isOdd => unary "odd?" Arithmetic.isOdd
  | .isZero => unary "zero?" Arithmetic.isZero
  | .isNil => predicate "nil?" isNothing
  | .isNumber => predicate "number?" Value.isNumber
  | .isString => predicate "string?" isText
  | .isSymbol => predicate "symbol?" isPlainSymbol
  | .isKeyword => predicate "keyword?" isKeywordValue
  | .isList => predicate "list?" isListValue
  | .isFunction => predicate "fn?" Value.isCallable
  | .cons => binary "cons" fun u v => Run.cons u v none
  | .car => unary "car" Pair.first
  | .cdr => unary "cdr" Pair.second
  | .setCar => binary "set-car!" Pair.setFirst
  | .setCdr => binary "set-cdr!" Pair.setSecond
  | .list => Run.list
  | .apply => twoOrMore "apply" (applied room call)
  | .funcall => oneOrMore "funcall" fun f args => do call (← function "funcall" 0 f) args
  | .println => Run.print room "\n"
  | .print => Run.print room ""
  | .filter => binary "filter" (Sequences.filter room call)
  | .map => twoOrMore "map" (Sequences.map room call)
  | .nth => binary "nth" (Sequences.nth room)
  | .count => unary "/count" (Sequences.count room)
  | .first => unary "first" (Sequences.first room)
  | .second => unary "second" (Sequences.second room)
  | .rest => unary "rest" (Sequences.rest room)
  | .last => unary "last" (Sequences.last room)
  | .reverse => unary "reverse" (Sequences.reverse room)
  | .append => Sequences.append room
  | .reduce => binaryOrTernary "reduce" (Sequences.reduce room call)
  | .range => Sequences.range
  | .sort => unaryOrBinary "sort" (Sequences.sort room call)
  | .toList => unary "to-list" (Sequences.toList room)
  | .toVector => unary "to-vector" (Sequences.toVector room)
  | .lowerCase => unary "lower-case" Texts.lowerCase
  | .upperCase => unary "upper-case" Texts.upperCase
  | .str => Texts.concat room
  | .stringJoin => binary "string-join" (Texts.join room)
  | .symbolToString => unary "symbol->string" Texts.ofSymbol
  | .stringToSymbol => unary "string->symbol" Texts.toSymbol
  | .assoc => binary "assoc" (Maps.assoc room)
  | .assocValue => binary "assoc-value" (Maps.assocValue room)
  | .newMap => Maps.ofPairs room
  | .get => binaryOrTernary "get" (Maps.get room)
  | .mapSet => ternary "map-set!" (Maps.set room)
  | .keys => unary "keys" Maps.keys
  | .vals => unary "vals" Maps.values
  | .entries => unary "entries" Maps.entries

/-! ## Names -/

/-- What the root binds at the start: the built-in functions, some under several names, and `t`. -/
def rootBindings : List (String × Value) := [
  ("+", .builtin .add), ("-", .builtin .sub), ("*", .builtin .mul), ("/", .builtin .div),
  ("mod", .builtin .mod), ("inc", .builtin .inc), ("1+", .builtin .inc),
  ("dec", .builtin .dec), ("1-", .builtin .dec),
  ("=", .builtin .equals), ("==", .builtin .equals), ("equal", .builtin .equals),
  ("/=", .builtin .notEquals), ("!=", .builtin .notEquals),
  ("<", .builtin .less), ("<=", .builtin .lessEq), (">", .builtin .greater),
  (">=", .builtin .greaterEq), ("not", .builtin .not),
  ("even?", .builtin .isEven), ("odd?", .builtin .isOdd), ("zero?", .builtin .isZero),
  ("nil?", .builtin .isNil), ("null?", .builtin .isNil), ("number?", .builtin .isNumber),
  ("string?", .builtin .isString), ("symbol?", .builtin .isSymbol),
  ("keyword?", .builtin .isKeyword), ("list?", .builtin .isList), ("fn?", .builtin .isFunction),
  ("cons", .builtin .cons), ("car", .builtin .car), ("cdr", .builtin .cdr),
  ("set-car!", .builtin .setCar), ("set-cdr!", .builtin .setCdr), ("list", .builtin .list),
  ("apply", .builtin .apply), ("funcall", .builtin .funcall),
  ("println", .builtin .println), ("print", .builtin .print), ("t", .bool true),
  ("filter", .builtin .filter), ("map", .builtin .map), ("nth", .builtin .nth),
  ("/count", .builtin .count), ("length", .builtin .count), ("first", .builtin .first),
  ("second", .builtin .second), ("rest", .builtin .rest), ("last", .builtin .last),
  ("reverse", .builtin .reverse), ("append", .builtin .append), ("reduce", .builtin .reduce),
  ("range", .builtin .range), ("sort", .builtin .sort), ("to-list", .builtin .toList),
  ("to-vector", .builtin .toVector),
  ("lower-case", .builtin .lowerCase), ("upper-case", .builtin .upperCase),
  ("str", .builtin .str), ("string-join", .builtin .stringJoin),
  ("symbol->string", .builtin .symbolToString), ("string->symbol", .builtin .stringToSymbol),
  ("assoc", .builtin .assoc), ("assoc-value", .builtin .assocValue),
  ("new-map", .builtin .newMap), ("get", .builtin .get), ("map-set!", .builtin .mapSet),
  ("keys", .builtin .keys), ("vals", .builtin .vals), ("entries", .builtin .entries)]

end Builtin

end TemplateLisp
