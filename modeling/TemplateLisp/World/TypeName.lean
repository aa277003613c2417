import TemplateLisp.World.Basic

/-!
# Names of types

The names by which messages call the types of values.
-/

namespace TemplateLisp.World

/-- The name of the type of a value. -/
def typeName (w : World) : Value → String
  | .nil => "NilType"
  | .null => "NoneType"
  | .bool _ => "bool"
  | .num (.int _) => "int"
  | .num (.float _) => "float"
  | .num (.dec _) => "Decimal"
  | .str _ => "str"
  | .sym _ => "Symbol"
  | .cell _ => "Cell"
  | .vector _ => "list"
  | .tuple _ => "tuple"
  | .map _ => "dict"
  | .closure _ => "Closure"
  | .builtin _ => "function"
  | .hostFunction _ _ => "function"
  | .date _ => "date"
  | .bytes _ => "bytes"
  | .object r => (w.object r).kind.name
  | .generator _ => "generator"
  | .formals _ => "LambdaList"
  | .env _ => "Environment"

/-- The name with the module of the type in front, where failures of the host give one. -/
def qualifiedTypeName (w : World) : Value → String
  | .num (.dec _) => "decimal.Decimal"
  | .date _ => "datetime.date"
  | v => w.typeName v

end TemplateLisp.World
