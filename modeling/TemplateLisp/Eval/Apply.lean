import TemplateLisp.Builtin.Basic
import TemplateLisp.Eval.Basic

/-!
# Calling functions

A call of a closure binds the arguments in a new frame inside the frame that the closure was made
in, and evaluates the body there; in tail position the body is left to the trampoline. A keyword
looks itself up in a map. A failure of the host inside a built-in function or a function of the host
becomes an error of the language that names the function.
-/

namespace TemplateLisp

/-- Makes failures of the host errors of the function with the given name. -/
def Run.orHostFault {α : Type} (name : String) (x : Run α) : Run α :=
  tryCatch x fun
    | .crash f => Run.fail (.host name f)
    | s => throw s

namespace Evaluator

variable [Host]

/-- Calls a built-in function. -/
def callBuiltin (e : Evaluator) (site : Site) (b : Builtin) (args : List Value) : Run Value := do
  let inner ← site.deeper
  Run.orHostFault b.hostName (b.run inner.room (e.call inner) args)

/-- How host code calls functions back: in an environment of its choice. -/
def hostCaller (e : Evaluator) (site : Site) : FrameRef → Caller := fun env f args => do
  let inner ← site.deeper
  e.call { inner with env := env } f args

/-- Carries out a call whose arguments are bound, or hands it back in tail position. -/
def finish (e : Evaluator) (fuel : Nat) (site : Site) (r : ClosureRef) (env : FrameRef) :
    (tail : Bool) → Run (Answer tail)
  | true => pure (.call r env)
  | false => do return .value (← e.complete site fuel (.call r env))

/-- Calls a closure, or hands the call back in tail position. -/
def callClosure (e : Evaluator) (fuel : Nat) (tail : Bool) (site : Site) (r : ClosureRef)
    (args : List Value) : Run (Answer tail) := do
  let c ← Run.look (·.closure r)
  let env ← c.formals.bind args c.env c.name
  e.finish fuel site r env tail

/-- Calls a function value. -/
def apply (e : Evaluator) (fuel : Nat) (tail : Bool) (site : Site) (f : Value)
    (args : List Value) : Run (Answer tail) := do
  match f with
  | .closure r => e.callClosure fuel tail site r args
  | .builtin b => return .value (← e.callBuiltin site b args)
  | .hostFunction g name =>
    return .value (← Run.orHostFault name
      (Host.callFunction site.room (e.hostCaller site) site.env g args))
  | .sym s =>
    if s.isKeyword then return .value (← Maps.ofKeyword s args)
    else Run.fail (.form (.symbolNotApplicable s.name))
  | _ => Run.fail (.form (.notApplicable (← Run.shown site.room f)))

/-- Calls a function from a built-in function. -/
def callBack (e : Evaluator) (fuel : Nat) (site : Site) (f : Value) (args : List Value) :
    Run Value := do
  let table ← match site.ambient with
    | some t => pure t
    | none => Run.make (·.addMacroTable [])
  return (← e.apply fuel false { site with macros := table } f args).get

end Evaluator

end TemplateLisp
