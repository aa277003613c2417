import TemplateLisp.Symbol
import TemplateLisp.Number.Basic

/-!
# Values

A value is an atom or a reference to an object in the heap of a `World`. Values are flat, so
equality of values is identity: two references are equal exactly if they name the same object. What
the objects hold is looked up in the world.
-/

namespace TemplateLisp

/-! ## References -/

/-- A pair in the heap. -/
structure CellRef where
  index : Nat
deriving DecidableEq, Inhabited, Repr

/-- A vector in the heap. -/
structure VectorRef where
  index : Nat
deriving DecidableEq, Inhabited, Repr

/-- A fixed sequence of the host in the heap. -/
structure TupleRef where
  index : Nat
deriving DecidableEq, Inhabited, Repr

/-- A closure in the heap. -/
structure ClosureRef where
  index : Nat
deriving DecidableEq, Inhabited, Repr

/-- A frame of bindings, which is also the environment that it is the innermost frame of. -/
structure FrameRef where
  index : Nat
deriving DecidableEq, Inhabited, Repr

/-- A map: one in the heap, or the variables of a frame. -/
inductive MapRef where
  | own (index : Nat)
  | vars (env : FrameRef)
deriving DecidableEq, Inhabited, Repr

/-- A table of macros. -/
structure MacroTableRef where
  index : Nat
deriving DecidableEq, Inhabited, Repr

/-- An object of the host. -/
structure ObjectRef where
  index : Nat
deriving DecidableEq, Inhabited, Repr

/-- A function of the host. What it does is the host's affair. -/
structure HostFunctionRef where
  index : Nat
deriving DecidableEq, Inhabited, Repr

/-- A one-shot sequence of the host. -/
structure GeneratorRef where
  index : Nat
deriving DecidableEq, Inhabited, Repr

/-! ## Functions -/

/-- The built-in functions. -/
inductive Builtin where
  | add | sub | mul | div | mod | inc | dec
  | equals | notEquals | less | lessEq | greater | greaterEq
  | not | isEven | isOdd | isZero | isNil
  | isNumber | isString | isSymbol | isKeyword | isList | isFunction
  | cons | car | cdr | setCar | setCdr | list | apply | funcall | println | print
  | filter | map | nth | count | first | second | rest | last | reverse | append
  | reduce | range | sort | toList | toVector
  | lowerCase | upperCase | str | stringJoin | symbolToString | stringToSymbol
  | assoc | assocValue | newMap | get | mapSet | keys | vals | entries
deriving DecidableEq, Inhabited, Repr

/-- The name under which a failure of the host inside a built-in function is reported. -/
def Builtin.hostName : Builtin → String
  | .add => "add" | .sub => "sub" | .mul => "mul" | .div => "div" | .mod => "mod"
  | .inc => "inc" | .dec => "dec"
  | .equals => "equals" | .notEquals => "not_equals"
  | .less => "<" | .lessEq => "<=" | .greater => ">" | .greaterEq => ">="
  | .not => "logical_not" | .isEven => "is_even" | .isOdd => "is_odd" | .isZero => "is_zero"
  | .isNil => "is_nil" | .isNumber => "number?" | .isString => "string?" | .isSymbol => "symbol?"
  | .isKeyword => "keyword?" | .isList => "list?" | .isFunction => "fn?"
  | .cons => "cons" | .car => "car" | .cdr => "cdr" | .setCar => "set_car" | .setCdr => "set_cdr"
  | .list => "list_builtin" | .apply => "apply" | .funcall => "funcall"
  | .println => "println" | .print => "print_builtin"
  | .filter => "filter_builtin" | .map => "map_builtin" | .nth => "nth" | .count => "count"
  | .first => "first" | .second => "second" | .rest => "rest" | .last => "last"
  | .reverse => "reverse" | .append => "append" | .reduce => "reduce_builtin"
  | .range => "range_builtin" | .sort => "sort" | .toList => "to_list" | .toVector => "to_vector"
  | .lowerCase => "lower_case" | .upperCase => "upper_case" | .str => "str_builtin"
  | .stringJoin => "string_join" | .symbolToString => "symbol_to_string"
  | .stringToSymbol => "string_to_symbol"
  | .assoc => "assoc" | .assocValue => "assoc_value" | .newMap => "new_map" | .get => "get"
  | .mapSet => "map_set" | .keys => "keys" | .vals => "vals" | .entries => "entries"

/-! ## Host data -/

/-- A calendar date. -/
structure Date where
  year : Nat
  month : Nat
  day : Nat
deriving DecidableEq, Inhabited, Repr

/-- A value of the language. -/
inductive Value where
  /-- The empty list, which is also the false value. -/
  | nil
  /-- The null of the host. -/
  | null
  | bool (b : Bool)
  | num (n : Number)
  | str (s : String)
  | sym (s : Symbol)
  | cell (r : CellRef)
  | vector (r : VectorRef)
  | tuple (r : TupleRef)
  | map (r : MapRef)
  | closure (r : ClosureRef)
  | builtin (b : Builtin)
  /-- A function of the host and the name it is known by. -/
  | hostFunction (f : HostFunctionRef) (name : String)
  | date (d : Date)
  | bytes (bs : List UInt8)
  | object (r : ObjectRef)
  | generator (r : GeneratorRef)
  /-- The parameters of a closure, as an object of their own. -/
  | formals (r : ClosureRef)
  /-- An environment, as an object that a closure hands out. -/
  | env (r : FrameRef)
deriving DecidableEq, Inhabited

namespace Value

/-- Only `nil`, false and the host null count as false. -/
def isTruthy : Value → Bool
  | .nil => false
  | .null => false
  | .bool b => b
  | _ => true

/-- Whether the value is a number; truth values are none. -/
def isNumber : Value → Bool
  | .num _ => true
  | _ => false

/-- Whether the value can be called. -/
def isCallable : Value → Bool
  | .closure _ => true
  | .builtin _ => true
  | .hostFunction _ _ => true
  | .sym s => s.isKeyword
  | _ => false

/-- Whether the value refers to nothing: whoever knows what it is can make it. -/
def isPlain : Value → Bool
  | .nil | .null | .bool _ | .num _ | .str _ | .sym _ | .builtin _ | .hostFunction _ _ | .date _
  | .bytes _ => true
  | _ => false

/-- Whether the value lies above `nil` in order; everything but `nil` does. -/
def isAboveNil (v : Value) : Bool := v ≠ .nil

/-- An integer value. -/
def int (n : Int) : Value := .num (.int n)

/-- The keys that a value is taken for as a number: numbers and truth values. -/
def numeric? : Value → Option Number
  | .num n => some n
  | .bool b => some (.int (if b then 1 else 0))
  | _ => none

end Value

end TemplateLisp
