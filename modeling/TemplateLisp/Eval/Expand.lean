import TemplateLisp.Eval.Basic
import TemplateLisp.Sequence

/-!
# Macros

A macro call is expanded by a transformer, which gets the argument forms unevaluated; the form it
gives is evaluated in place of the call. A transformer is a closure or one of the four built-in
ones.
-/

namespace TemplateLisp

namespace BuiltinMacro

/-- The name that messages give the macro. -/
def name : BuiltinMacro → String
  | .whenTrue => "when"
  | .unlessTrue => "unless"
  | .incf => "incf"
  | .decf => "decf"

/-- The form `(progn body ...)`. -/
def block (body : List Value) : Run Value := Run.list (.sym ⟨"progn"⟩ :: body)

/-- The form `(setq place (operator place delta))`. -/
def step (m : BuiltinMacro) (room : Room) (operator : String) (args : List Value) : Run Value := do
  let build (place delta : Value) : Run Value := do
    match place with
    | .sym _ => Run.list [.sym ⟨"setq"⟩, place, ← Run.list [.sym ⟨operator⟩, place, delta]]
    | v => Run.fail (.form (.stepPlace m.name (← Run.shown room v)))
  match args with
  | [place] => build place (.int 1)
  | [place, delta] => build place delta
  | _ => Run.fail (.arity (.step m.name))

/-- The expansion of a call with the given argument forms. -/
def expand (room : Room) (args : List Value) (m : BuiltinMacro) : Run Value := do
  match m, args with
  | .whenTrue, test :: body => Run.list [.sym ⟨"if"⟩, test, ← block body]
  | .unlessTrue, test :: body =>
    Run.list [.sym ⟨"if"⟩, ← Run.list [.sym ⟨"not"⟩, test], ← block body]
  | .incf, args => m.step room "+" args
  | .decf, args => m.step room "-" args
  | m, _ => Run.fail (.arity (.testMissing m.name))

/-- The table of macros that an interpreter starts with. -/
def table : MacroTable :=
  [.whenTrue, .unlessTrue, .incf, .decf].map fun m => (⟨m.name⟩, .builtin m)

end BuiltinMacro

namespace World

/-- The transformer of a macro. -/
def transformer? (w : World) (table : MacroTableRef) (name : Symbol) : Option Transformer :=
  (w.macros table).lookup name

/-- Defines a macro; a name that is taken keeps its place. -/
def defineMacro (w : World) (table : MacroTableRef) (name : Symbol) (t : Transformer) : World :=
  w.updateMacros table fun ms =>
    if ms.any fun m => m.1 = name then ms.map fun m => if m.1 = name then (name, t) else m
    else ms ++ [(name, t)]

end World

namespace Evaluator

/-- The argument forms of a macro call: the elements of whatever follows the name, of a map its
keys. -/
def macroArguments [Host] (room : Room) (v : Value) : Run (List Value) := do
  match v with
  | .map r => return (← Run.look (·.entries r)).map (·.1)
  | _ =>
    match ← Run.look (·.cursor? v) with
    | some c => c.toList room
    | none => Run.crash (.notIterable (← Run.look (·.qualifiedTypeName v)))

/-- The expansion of a macro call with the given argument forms. -/
def expand (e : Evaluator) (site : Site) (args : List Value) : Transformer → Run Value
  | .builtin m => m.expand site.room args
  | .closure r => do
    let c ← Run.look (·.closure r)
    let env ← c.formals.bind args c.env c.name
    e.value { site with env := env } c.body

end Evaluator

end TemplateLisp
