import TemplateLisp.Environment

/-!
# Parameter lists

A parameter list names required parameters, after `&optional` optional ones, and after `&rest` one
for all further arguments; the last may also stand behind a dot. Binding arguments makes a new frame
with one binding for each parameter.
-/

namespace TemplateLisp.ParameterList

/-- Why a value is no parameter list. -/
inductive Failure where
  | notSymbol (v : Value)
  | secondRest
  | malformed
  | restMissing
deriving DecidableEq, Inhabited

/-- Which group the next parameter belongs to. -/
inductive Group where
  | required
  | optional
  | rest
deriving DecidableEq, Inhabited

/-- Reads the parameters of a list, group by group. -/
def gather (group : Group) (p : ParameterList) : List Value → Except Failure (Group × ParameterList)
  | [] => .ok (group, p)
  | .sym s :: vs =>
    if s.name = "&optional" then gather .optional p vs
    else if s.name = "&rest" then gather .rest p vs
    else
      match group with
      | .required => gather group { p with required := p.required ++ [s] } vs
      | .optional => gather group { p with optional := p.optional ++ [s] } vs
      | .rest =>
        if p.rest.isSome then .error .secondRest
        else gather group { p with rest := some s } vs
  | v :: _ => .error (.notSymbol v)

/-- The parameter list with the given elements and the given end. -/
def parse (items : List Value) (tail : Value) : Except Failure ParameterList := do
  let (group, p) ← gather .required ⟨[], [], none⟩ items
  let p ← match tail with
    | .sym s => pure { p with rest := some s }
    | .nil => pure p
    | _ => .error .malformed
  if group = .rest && p.rest.isNone then .error .restMissing else return p

/-- The parameter list that a value denotes. -/
def ofValue (room : Room) (v : Value) : Run ParameterList := do
  let (cells, tail) ← Run.spine v
  match parse (cells.map (·.car)) tail with
  | .ok p => return p
  | .error (.notSymbol x) => Run.fail (.form (.parameterNotSymbol (← Run.shown room x)))
  | .error .secondRest => Run.fail (.form .secondRestParameter)
  | .error .malformed => Run.fail (.form (.malformedParameters (← Run.shown room v)))
  | .error .restMissing => Run.fail (.form .restParameterMissing)

/-- The fault of calling with so many arguments, if it is one. -/
def arityFault? (p : ParameterList) (label : String) (count : Nat) : Option ArityFault :=
  let least := p.required.length
  let greatest := least + p.optional.length
  if count < least then some (.tooFew label least count)
  else if p.rest.isNone && greatest < count then some (.tooMany label greatest count)
  else none

/-- The values of the named parameters: arguments in order, then `nil`. -/
def namedValues (p : ParameterList) (args : List Value) : List (Symbol × Value) :=
  let names := p.required ++ p.optional
  names.zip (args ++ List.replicate (names.length - args.length) .nil)

/-- Binds every parameter in a new frame inside `outer`. `name` is the name of the function. -/
def bind (p : ParameterList) (args : List Value) (outer : FrameRef) (name : Option String) :
    Run FrameRef := do
  let label := match name with
    | some n => if n = "" then "fn" else n
    | none => "fn"
  match p.arityFault? label args.length with
  | some f => Run.fail (.arity f)
  | none =>
    let extra := args.drop (p.required.length + p.optional.length)
    let named := (p.namedValues args).foldl (fun b (n, v) => Bindings.put n v b) []
    match p.rest with
    | none => Run.make (·.addFrame ⟨named, some outer⟩)
    | some r =>
      let rest ← Run.list extra
      Run.make (·.addFrame ⟨Bindings.put r rest named, some outer⟩)

end TemplateLisp.ParameterList
