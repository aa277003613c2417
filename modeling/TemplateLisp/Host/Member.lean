import TemplateLisp.Sequence
import TemplateLisp.Text.CamelCase

/-!
# Members

`(.Name receiver args ...)` reaches a member of the receiver. A map is asked for the name as a text
and then as a keyword. An object of the host that resolves its members itself is asked for the very
name. Every other value has attributes, and is asked for the name and then for its snake-case
spelling. Pairs, symbols, closures, parameter lists and environments have the attributes that are
listed here; of everything else the host knows the attributes.

A method is called with the arguments; any other member is given as it is and takes none. Names that
begin with an underscore are out of reach. Whatever goes wrong in host code on the way is reported
as an access error; where a member is looked up, the host may raise one of its own.
-/

namespace TemplateLisp

/-- The methods of closures, parameter lists and environments. -/
inductive OwnMethod where
  | extendEnv (r : ClosureRef)
  | names (r : ClosureRef)
  | define (env : FrameRef)
  | find (env : FrameRef)
  | assign (env : FrameRef)
  | lookup (env : FrameRef)
  | isBound (env : FrameRef)
  | update (env : FrameRef)
  | frames (env : FrameRef)
deriving Inhabited

/-- What a member name stands for. -/
inductive Member where
  | value (v : Value)
  | own (m : OwnMethod)
  /-- A method of the host. -/
  | method (owner : Value) (name : String)
deriving Inhabited

/-- Whether a member name is out of reach. -/
def isHiddenMember (name : String) : Bool :=
  match name.toList with
  | [] => true
  | c :: _ => c = '_'

namespace Run

/-! ## Attributes -/

/-- Symbols as a vector. -/
def symbolVector (names : List Symbol) : Run Value := vector (names.map .sym)

/-- An attribute of a symbol. -/
def symbolAttribute? (s : Symbol) (name : String) : Option Value :=
  match name with
  | "id" => some (.str s.name)
  | "is_keyword" => some (.bool s.isKeyword)
  | "is_member_access" => some (.bool s.isMember)
  | "bare_name" => some (.str s.bareName)
  | _ => none

/-- An attribute of a pair; its place is given as line and column. -/
def cellAttribute (c : Cell) (name : String) : Run (Option Value) :=
  match name with
  | "car" => pure (some c.car)
  | "cdr" => pure (some c.cdr)
  | "pos" =>
    match c.pos with
    | none => pure (some .null)
    | some p => do return some (← tuple [.int p.line, .int p.column])
  | _ => pure none

/-- An attribute of a closure. -/
def closureAttribute (w : World) (r : ClosureRef) (name : String) : Option Member :=
  let c := w.closure r
  match name with
  | "name" => some (.value (match c.name with | some n => .str n | none => .null))
  | "params" => some (.value c.params)
  | "body" => some (.value c.body)
  | "formals" => some (.value (.formals r))
  | "env" => some (.value (.env c.env))
  | "extend_env" => some (.own (.extendEnv r))
  | _ => none

/-- An attribute of the parameters of a closure. -/
def formalsAttribute (r : ClosureRef) (name : String) : Run (Option Member) := do
  let p := (← look (·.closure r)).formals
  match name with
  | "required" => return some (.value (← symbolVector p.required))
  | "optional" => return some (.value (← symbolVector p.optional))
  | "rest" => return some (.value (match p.rest with | some s => .sym s | none => .null))
  | "names" => return some (.own (.names r))
  | _ => return none

/-- An attribute of an environment. -/
def environmentAttribute (w : World) (env : FrameRef) (name : String) : Option Member :=
  match name with
  | "vars" => some (.value (.map (.vars env)))
  | "outer" => some (.value (match (w.frame env).outer with | some o => .env o | none => .null))
  | "root" => some (.value (.env (w.root env)))
  | "define" => some (.own (.define env))
  | "find" => some (.own (.find env))
  | "assign" => some (.own (.assign env))
  | "lookup" => some (.own (.lookup env))
  | "is_bound" => some (.own (.isBound env))
  | "update" => some (.own (.update env))
  | "frames" => some (.own (.frames env))
  | _ => none

section
variable [Host] (room : Room) (call : FrameRef → Caller)

/-- What host code finds under a name. -/
def foundBy (owner : Value) (name : String) (code : HostCode Attribute) : Run (Option Member) := do
  match ← code.run room call [owner] with
  | (.absent, _) => return none
  | (.value v, known) => return some (.value (v.value known))
  | (.method, _) => return some (.method owner name)

/-- An attribute of a value that is neither a map nor resolves its members itself. -/
def memberOf (receiver : Value) (name : String) : Run (Option Member) := do
  match receiver with
  | .sym s => return (symbolAttribute? s name).map .value
  | .cell r => return (← cellAttribute (← look (·.cell r)) name).map .value
  | .closure r => look (closureAttribute · r name)
  | .formals r => formalsAttribute r name
  | .env r => look (environmentAttribute · r name)
  | _ => foundBy room call receiver name (Host.find name ⟨0, receiver⟩)

/-- A member of a map: the value under the name as a text, or else as a keyword. -/
def mapMember (w : World) (r : MapRef) (name : String) : Option Value :=
  (w.findKey? (w.entries r) (.str name)).or (w.findKey? (w.entries r) (.sym (.keyword name)))

/-- What the attribute of a name or else of its snake-case spelling is. -/
def attributeOf (receiver : Value) (name : String) : Run (Option Member) := do
  match ← memberOf room call receiver name with
  | some m => return some m
  | none =>
    let other := String.ofList (Text.snakeCase name.toList)
    if other = name then return none else memberOf room call receiver other

/-- What a name stands for on a receiver. -/
def findMember (receiver : Value) (name : String) : Run (Option Member) := do
  match receiver with
  | .map r => return (← look (mapMember · r name)).map .value
  | .object r =>
    if (← look (·.object r)).kind.resolvable then
      foundBy room call receiver name (Host.resolve name ⟨0, receiver⟩)
    else attributeOf room call receiver name
  | _ => attributeOf room call receiver name

end

end Run

/-! ## Methods of environments and closures -/

namespace OwnMethod

/-- The class, the name and the parameters of a method, as failures give them. -/
def signature : OwnMethod → String × String × List String
  | .extendEnv _ => ("Closure", "extend_env", ["args"])
  | .names _ => ("LambdaList", "names", [])
  | .define _ => ("Environment", "define", ["name", "value"])
  | .find _ => ("Environment", "find", ["symbol"])
  | .assign _ => ("Environment", "assign", ["name", "value"])
  | .lookup _ => ("Environment", "lookup", ["name"])
  | .isBound _ => ("Environment", "is_bound", ["name"])
  | .update _ => ("Environment", "update", ["mapping"])
  | .frames _ => ("Environment", "frames", [])

/-- A number of things. -/
def counted (n : Nat) (thing : String) : String :=
  toString n ++ " " ++ thing ++ if n = 1 then "" else "s"

/-- The failure of a call with the wrong number of arguments. The object that the method belongs to
counts as one more. -/
def miscounted (m : OwnMethod) (args : List Value) : HostFault :=
  let (owner, name, parameters) := m.signature
  let subject := owner ++ "." ++ name ++ "() "
  if parameters.length < args.length then
    .wrongCount (subject ++ "takes " ++ counted (parameters.length + 1) "positional argument"
      ++ " but " ++ toString (args.length + 1) ++ " were given")
  else
    let missing := parameters.drop args.length
    .wrongCount
      (subject ++ "missing " ++ counted missing.length "required positional argument" ++ ": "
      ++ " and ".intercalate (missing.map fun p => "'" ++ p ++ "'"))

/-- Stops at a value that cannot be a key. -/
def checkKey (key : Value) : Run Unit := do
  if ← Run.look (·.isKey key) then return ()
  else
    let name ← Run.look (·.qualifiedTypeName key)
    Run.crash (.raised .typeError ("unhashable type: '" ++ name ++ "'"))

/-- The nearest frame whose variables have a key. -/
def frameWith? (w : World) (env : FrameRef) (key : Value) : Option FrameRef :=
  (w.chain env).find? fun r => (w.findKey? (w.frame r).vars key).isSome

/-- Writes a variable of a frame under any key. -/
def write (env : FrameRef) (key value : Value) : Run Unit :=
  modify fun w => w.setEntries (.vars env) (w.putKey key value (w.frame env).vars)

/-- Binds the entries of a map in a frame, from the one with `left` entries to go; the map had
`size` entries at the start and must keep that number. -/
def bindEntries (room : Room) (env : FrameRef) (r : MapRef) (size left : Nat) : Run Unit := do
  let es ← Run.look (·.entries r)
  if es.length ≠ size then Run.crash .mapResized
  else
    match left with
    | 0 => return ()
    | left + 1 =>
      match es[size - (left + 1)]? with
      | none => return ()
      | some (k, v) =>
        Run.define env (← Run.symbolNamed room k) v
        bindEntries room env r size left

section
variable [Host] (room : Room)

/-- The arguments that parameters are bound to when they are given as one value. If their number is
wrong they do not matter. Only vectors, fixed sequences, texts and bytes give more than the required
ones; a map gives its keys and what it has under the numbers of the optional ones. -/
def spreadArguments (p : ParameterList) (v : Value) : Run (List Value) := do
  let count ← Run.size room v
  let least := p.required.length
  if (p.arityFault? "" count).isSome then return List.replicate count .nil
  else
    match v with
    | .vector _ | .tuple _ | .str _ | .bytes _ => Run.items room "" 0 v
    | .map r =>
      let w ← get
      let positions := (List.range (min (count - least) p.optional.length)).map (least + ·)
      match positions.find? fun (i : Nat) => (w.findKey? (w.entries r) (.int i)).isNone with
      | some i => Run.crash (.raised .keyError (toString i))
      | none =>
        if p.rest.isSome then Run.crash (.raised .typeError "unhashable type: 'slice'")
        else
          return ((w.entries r).map (·.1)).take least
            ++ positions.filterMap fun (i : Nat) => w.findKey? (w.entries r) (.int i)
    | _ =>
      match p.rest.isNone && count = least, ← Run.look (·.cursor? v) with
      | true, some c => c.toList room
      | _, _ =>
        let name ← Run.look (·.qualifiedTypeName v)
        Run.crash (.raised .typeError ("'" ++ name ++ "' object is not subscriptable"))

/-- Calls a method. -/
def run (args : List Value) (m : OwnMethod) : Run Value := do
  match m, args with
  | .extendEnv r, [v] =>
    let c ← Run.look (·.closure r)
    return .env (← c.formals.bind (← spreadArguments room c.formals v) c.env c.name)
  | .names r, [] => Run.symbolVector (← Run.look (·.closure r)).formals.names
  | .define env, [name, v] =>
    Run.define env (← Run.symbolNamed room name) v
    return .null
  | .find env, [key] =>
    checkKey key
    return ((← Run.look (frameWith? · env key)).map Value.env).getD .null
  | .assign env, [key, v] =>
    checkKey key
    let target ← Run.look fun w => (frameWith? w env key).getD (w.root env)
    write target key v
    return .null
  | .lookup env, [key] =>
    checkKey key
    match ← Run.look fun w =>
        (frameWith? w env key).bind fun r => w.findKey? (w.frame r).vars key with
    | some v => return v
    | none => Run.fail (.unbound (← Run.plain room key))
  | .isBound env, [name] =>
    let s ← Run.symbolNamed room name
    return .bool (← Run.look fun w => (w.findFrame? env s).isSome)
  | .update env, [v] =>
    match v with
    | .map r =>
      let size := (← Run.look (·.entries r)).length
      bindEntries room env r size size
      return .null
    | _ => Run.crash (.noAttribute (← Run.look (·.qualifiedTypeName v)) "items")
  | .frames env, [] =>
    let chain ← Run.look (·.chain env)
    Run.make fun w => let (r, w) := w.addGenerator (chain.map .env); (.generator r, w)
  | m, args => Run.crash (m.miscounted args)

end

end OwnMethod

/-! ## Reaching a member -/

namespace Run

/-- What a stop in host code is reported as: an access error. If the host may refuse, an access
error of its own passes. -/
def accessStop (mayRefuse : Bool) (member : String)
    (asFault : HostFault → AccessFault) : Stop → Stop
  | .crash f => .ofFault (.access member (asFault f))
  | .tooDeep => .ofFault (.access member (asFault .tooDeep))
  | .returned _ => .ofFault (.access member (asFault .returnSignal))
  | .error e =>
    if mayRefuse && e.fault.isAccess then .error e
    else .ofFault (.access member (asFault e.asHostFault))
  | .endless => .endless

/-- Reports whatever goes wrong in host code. -/
def orAccessFault {α : Type} (mayRefuse : Bool) (member : String)
    (asFault : HostFault → AccessFault) (x : Run α) : Run α :=
  tryCatch x fun s => throw (accessStop mayRefuse member asFault s)

variable [Host] (room : Room) (call : FrameRef → Caller)

/-- Calls a method with arguments. -/
def callMember (args : List Value) : Member → Run Value
  | .value v => pure v
  | .own m => m.run room args
  | .method owner name => Host.callMethod room call owner name args

/-- The value of a member, or the result of calling it. -/
def member (receiver : Value) (name : String) (args : List Value) : Run Value := do
  if isHiddenMember name then fail (.access name .hidden)
  else if receiver = .nil || receiver = .null then fail (.access name .onNil)
  else
    let owner ← typeName receiver
    match ← orAccessFault true name (.accessFailed owner) (findMember room call receiver name) with
    | none => fail (.access name (.missing owner))
    | some (.value v) =>
      if args.isEmpty then return v else fail (.access name (.notAMethod owner))
    | some m => orAccessFault false name (.callFailed owner) (callMember room call args m)

end Run

end TemplateLisp
