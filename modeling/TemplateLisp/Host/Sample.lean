import TemplateLisp.Host.Code
import TemplateLisp.Number.IntegerText
import TemplateLisp.Text.Quoted

/-!
# A sample host

A host with a few functions and with objects of three kinds: records, which have fields, methods and
properties, rows, which resolve the names of their members themselves, and walks that break off. Of
a date it knows year, month and day.
-/

namespace TemplateLisp.SampleHost

open HostCode

/-! ## Shapes of code -/

/-- Asks for something and fails as it fails. -/
def asking {α : Type} (request : HostRequest) (next : List Known → HostCode α) : HostCode α :=
  .ask request fun
    | .ok found => next found
    | .error s => .raise s

/-- Gives the value that is asked for. -/
def giving (request : HostRequest) : HostCode Handle :=
  asking request fun
    | k :: _ => .answer (.known k.number)
    | [] => .answer (.plain .null)

/-- Fails with a failure of the host. -/
def failing {α : Type} (f : HostFault) : HostCode α := .raise (.crash f)

/-- The names of values. -/
def handles (ks : List Known) : List Handle := ks.map fun k => .known k.number

/-! ## Functions -/

/-- The functions, as they are installed. -/
inductive FunctionKind where
  /-- Counts its arguments; it is given the environment. -/
  | countArguments
  /-- Fails with a key error; it is given the environment. -/
  | explode
  /-- Measures a sequence. -/
  | length
  /-- Makes an integer of a number or a text. -/
  | toInteger
  /-- Gives the host null. -/
  | null
  /-- Gives its arguments as a fixed sequence. -/
  | tuple
  /-- Gives its arguments as a vector. -/
  | vector
  /-- Gives its arguments as a one-shot sequence. -/
  | generator
  /-- Fails with a key error. -/
  | keyError
  /-- Raises an error of the language without a place. -/
  | languageError
  /-- Raises an index error that has a place already. -/
  | indexError
deriving DecidableEq, Inhabited, Repr

/-- All kinds of functions. A function is of the kind that its number leaves. -/
def FunctionKind.all : List FunctionKind :=
  [.countArguments, .explode, .length, .toInteger, .null, .tuple, .vector, .generator, .keyError,
    .languageError, .indexError]

/-- The function of a kind with a mark of its own. -/
def FunctionKind.ref (kind : FunctionKind) (mark : Nat) : HostFunctionRef :=
  ⟨mark * all.length + all.idxOf kind⟩

/-- The kind of a function. -/
def kindOf (f : HostFunctionRef) : FunctionKind :=
  FunctionKind.all.getD (f.index % FunctionKind.all.length) .null

/-- The integer that a text denotes; `shown` is the text as messages show it. -/
def integerOfText (shown text : String) : Except HostFault Int :=
  match IntegerText.parse text with
  | .ok n => .ok n
  | .error .malformed => .error (.invalidInteger shown)
  | .error (.tooManyDigits digits) => .error (.literalTooLong digits)

/-- The integer part of a number. -/
def integerPart : Number → Except HostFault Int
  | .int n => .ok n
  | .float (.infinite _) => .error .infinityToInteger
  | .float x =>
    match x.truncate? with
    | some n => .ok n
    | none => .error .nanToInteger
  | .dec (.infinite _) => .error (.raised .overflowError "cannot convert Infinity to integer")
  | .dec d =>
    match d.toRat? with
    | some q => .ok (Int.tdiv q.num q.den)
    | none => .error (.raised .valueError "cannot convert NaN to integer")

/-- The integer of a value of that type. -/
def integerOf (v : Value) (typeName : String) : Except HostFault Int :=
  match v with
  | .bool b => .ok (if b then 1 else 0)
  | .num n => integerPart n
  | .str s => integerOfText (Text.quoted s) s
  | .bytes bs =>
    integerOfText (Text.quotedBytes bs) (String.ofList (bs.map fun b => Char.ofNat b.toNat))
  | _ => .error (.noInteger typeName)

/-- The code of `int`. -/
def toInteger : List Known → HostCode Handle
  | [] => .answer (.plain (.int 0))
  | [k] =>
    asking (.typeName (.known k.number)) fun found =>
      let typeName := match found with
        | [⟨_, .str s⟩] => s
        | _ => ""
      match integerOf k.view typeName with
      | .ok n => .answer (.plain (.int n))
      | .error f => failing f
  | [_, _] => failing (.wrongCount "int() can't convert non-string with explicit base")
  | args => failing (.wrongCount ("int() takes at most 2 arguments ("
      ++ toString args.length ++ " given)"))

/-- The code of `len`. -/
def length : List Known → HostCode Handle
  | [k] => giving (.size (.known k.number))
  | args => failing (.wrongCount ("len() takes exactly one argument ("
      ++ toString args.length ++ " given)"))

/-- What a function does. -/
def function (f : HostFunctionRef) : HostFunction :=
  match kindOf f with
  | .countArguments => .raw fun _ args => .answer (.plain (.int args.length))
  | .explode => .raw fun _ _ => failing (.raised .keyError "'host bug'")
  | .length => .plain length
  | .toInteger => .plain toInteger
  | .null => .plain fun _ => .answer (.plain .null)
  | .tuple => .plain fun args => giving (.tuple (handles args))
  | .vector => .plain fun args => giving (.vector (handles args))
  | .generator => .plain fun args => giving (.generator (handles args))
  | .keyError => .plain fun _ => failing (.raised .keyError "'host bug'")
  | .languageError => .plain fun _ => .raise (.ofFault (.form (.stated "host says no")))
  | .indexError => .plain fun _ => .raise (.error ⟨.indexStated "host index", some ⟨77, 7⟩⟩)

/-! ## Objects -/

/-- The class of records with a name and methods. -/
def recordClass (name : String) (methods : List String) : HostClass :=
  ⟨name, false, none, false, methods⟩

/-- The class of rows. -/
def rowClass : HostClass := ⟨"Row", true, none, false, []⟩

/-- How a walk breaks off. -/
inductive BreakOff where
  | typeError
  | valueError
deriving DecidableEq, Inhabited, Repr

/-- The name of a way to break off. -/
def BreakOff.name : BreakOff → String
  | .typeError => "type"
  | .valueError => "value"

/-- The class of walks that break off after their first element; the field tells how. -/
def breakOffClass : HostClass := ⟨"BadIter", false, some 1, false, []⟩

/-- The fields of a walk that breaks off. -/
def BreakOff.fields (b : BreakOff) : List (String × Value) := [("kind", .str b.name)]

/-- A property of a record. One that needs a field which is not there counts as absent. -/
def property (owner : Known) (name : String) : HostCode Attribute :=
  match name with
  | "name_size" =>
    asking (.field (.known owner.number) "name") fun
      | [] => .answer .absent
      | k :: _ =>
        asking (.size (.known k.number)) fun
          | size :: _ => .answer (.value (.known size.number))
          | [] => .answer .absent
  | _ => failing (.raised .valueError "bad prop")

/-- Whether a member of a record is a property, which is computed when it is looked up. -/
def isProperty (name : String) : Bool := name = "bad_prop" || name = "name_size"

/-- An attribute of a record: its properties come before its fields, and these before
its methods. -/
def recordAttribute (owner : Known) (name : String) : HostCode Attribute :=
  asking (.members (.known owner.number)) fun members =>
    let isMember := members.any fun m => m.view = .str name
    if isMember && isProperty name then property owner name
    else
      asking (.field (.known owner.number) name) fun
        | k :: _ => .answer (.value (.known k.number))
        | [] => .answer (if isMember then .method else .absent)

/-- An attribute of a date. -/
def dateAttribute (d : Date) (name : String) : Attribute :=
  match name with
  | "year" => .value (.plain (.int d.year))
  | "month" => .value (.plain (.int d.month))
  | "day" => .value (.plain (.int d.day))
  | _ => .absent

/-- An attribute of a value. -/
def find (name : String) (owner : Known) : HostCode Attribute :=
  match owner.view with
  | .date d => .answer (dateAttribute d name)
  | .object _ => recordAttribute owner name
  | _ => .answer .absent

/-- A member of a row. -/
def resolve (name : String) (owner : Known) : HostCode Attribute :=
  if name = "Fail" then failing (.raised .runtimeError "row failure")
  else if name = "Denied" then .raise (.ofFault (.access "Denied" (.refused "denied by host")))
  else
    asking (.field (.known owner.number) name) fun
      | k :: _ => .answer (.value (.known k.number))
      | [] => .answer .absent

/-- The texts that values of the kind of a text come as. -/
def textOf : List Known → String
  | ⟨_, .str s⟩ :: _ => s
  | _ => ""

/-- Describes a record by a word in front of its name. -/
def describe (owner : Known) (start : String) : HostCode Handle :=
  asking (.field (.known owner.number) "name") fun
    | [] =>
      asking (.typeName (.known owner.number)) fun found =>
        failing (.noAttribute (textOf found) "name")
    | k :: _ =>
      asking (.text (.known k.number)) fun found =>
        .answer (.plain (.str (start ++ ": " ++ textOf found)))

/-- Calls a method of a record. -/
def method (name : String) (owner : Known) (args : List Known) : HostCode Handle :=
  match name, args with
  | "describe", [] => describe owner "item"
  | "describe", [k] =>
    asking (.text (.known k.number)) fun found => describe owner (textOf found)
  | "describe", args =>
    failing (.wrongCount ("describe() takes from 1 to 2 positional arguments but "
      ++ toString (args.length + 1) ++ " were given"))
  | "echo", args => giving (.vector (handles args))
  | _, [] => failing (.raised .runtimeError "boom")
  | _, args =>
    failing (.wrongCount ("broken() takes 1 positional argument but "
      ++ toString (args.length + 1) ++ " were given"))

/-- An element of a walk that breaks off: one, and then the failure. -/
def element (owner : Known) : (index : Nat) → HostCode (Option Handle)
  | 0 => .answer (some (.plain (.int 1)))
  | _ + 1 =>
    asking (.field (.known owner.number) "kind") fun
      | [⟨_, .str "type"⟩] => failing (.raised .typeError "bad iteration")
      | _ => failing (.raised .valueError "bad iteration")

/-- The sample host. No object of it has a size. -/
scoped instance sampleHost : Host where
  function := function
  find := find
  resolve := resolve
  method := method
  element := element
  size owner :=
    asking (.typeName (.known owner.number)) fun found => failing (.notSized (textOf found))

end TemplateLisp.SampleHost
