import TemplateLisp.Eval.Eval
import TemplateLisp.Prelude
import TemplateLisp.Reader.Parser

/-!
# Interpreters

An interpreter is a root frame and a table of macros in a world; both persist from one program to
the next. A program is read as a whole before any of it is evaluated.

`render` runs a program for what it writes and reports the error that stopped it, if one did.
`evaluate` gives the value of the last form. A `return` ends either at once.
-/

namespace TemplateLisp

/-- The bounds of evaluations: how deep they may nest and how long they may take. -/
structure Limits where
  room : Room
  fuel : Nat
deriving DecidableEq, Inhabited

/-- The usual bounds. -/
def Limits.standard : Limits := ⟨⟨some 1400⟩, Nat.pow 10 15⟩

/-- A root frame and a table of macros. -/
structure Interpreter where
  env : FrameRef
  macros : MacroTableRef
deriving DecidableEq, Inhabited

namespace Run

/-- The end of a run that is reported for a text that cannot be read. -/
def ofReadFailure : ReadFailure → Stop
  | .fault f pos => .error ⟨.reading f, pos⟩
  | .literalTooLong digits => .crash (.literalTooLong digits)
  | .tooDeep => .crash .tooDeep

/-- The forms of a text, put into the heap. -/
def read (room : Room) (source : String) : Run (List Value) :=
  match TemplateLisp.read room source with
  | .ok forms => make fun w => w.loadItems [] forms
  | .error f => throw (ofReadFailure f)

/-- The only form of a text, put into the heap. -/
def readOne (room : Room) (source : String) : Run Value :=
  match TemplateLisp.readOne room source with
  | .ok form => make fun w => w.load form
  | .error f => throw (ofReadFailure f)

/-- Runs something on an output of its own and gives what was written with the outcome. -/
def captured {α : Type} (x : Run α) : Run (String × Except Stop α) := fun w =>
  match x { w with output := "" } with
  | .ok a w' => .ok (w'.output, .ok a) { w' with output := w.output }
  | .error s w' => .ok (w'.output, .error s) { w' with output := w.output }

/-- Reports an exhausted stack as an error. -/
def orStackOverflow {α : Type} (x : Run α) : Run α :=
  tryCatch x fun
    | .tooDeep => fail .tooDeep
    | s => throw s

/-- A new root frame; with `builtins` it binds the built-in functions. -/
def newRoot (builtins : Bool) : Run FrameRef :=
  let bindings :=
    if builtins then Bindings.ofNames (Builtin.rootBindings.map fun (n, v) => (⟨n⟩, v)) else []
  make (·.addFrame ⟨bindings, none⟩)

end Run

/-- The outcome of rendering a program. -/
structure Rendering where
  /-- What the program wrote. -/
  output : String
  /-- The error that stopped it. -/
  error : Option Error
deriving DecidableEq, Inhabited

namespace Interpreter

variable [Host]

/-- Where the top-level forms of an interpreter are evaluated. -/
def site (i : Interpreter) (limits : Limits) : Site :=
  ⟨i.env, i.macros, some i.macros, limits.room⟩

/-- Evaluates forms in order and gives the value of the last one. -/
def evalForms (i : Interpreter) (limits : Limits) (last : Value) : List Value → Run Value
  | [] => pure last
  | v :: vs => do i.evalForms limits (← TemplateLisp.evaluate limits.fuel (i.site limits) v) vs

/-- Evaluates the forms of a text for what they define. -/
def load (i : Interpreter) (limits : Limits) (source : String) : Run Unit := do
  let forms ← Run.read limits.room source
  discard <| Run.orStackOverflow (i.evalForms limits .nil forms)

/-- Loads texts in order. -/
def loadAll (i : Interpreter) (limits : Limits) : List String → Run Unit
  | [] => pure ()
  | source :: sources => do
    i.load limits source
    i.loadAll limits sources

/-- A new interpreter that has loaded nothing. -/
def bare : Run Interpreter := do
  let env ← Run.newRoot true
  let macros ← Run.make (·.addMacroTable BuiltinMacro.table)
  return ⟨env, macros⟩

/-- A new interpreter that has loaded the given texts. -/
def create (limits : Limits) (sources : List String) : Run Interpreter := do
  let i ← bare
  i.loadAll limits sources
  return i

/-- Binds a value in the root. -/
def set (i : Interpreter) (name : String) (v : Value) : Run Unit := Run.define i.env ⟨name⟩ v

/-- Binds a function of the host in the root. -/
def setFunction (i : Interpreter) (name : String) (f : HostFunctionRef) : Run Unit :=
  i.set name (.hostFunction f name)

/-- The value of a name in the root, if it has one. -/
def get? (i : Interpreter) (name : String) : Run (Option Value) :=
  Run.look (·.lookup? i.env ⟨name⟩)

/-- The names of all macros. -/
def macroNames (i : Interpreter) : Run (List String) := do
  return (← Run.look (·.macros i.macros)).map (·.1.name)

/-- Runs a program and gives what it wrote and what stopped it. A failure of the host that is no
error of the language passes through. -/
def render (i : Interpreter) (limits : Limits) (program : String) : Run Rendering := do
  match TemplateLisp.read limits.room program with
  | .error f =>
    match Run.ofReadFailure f with
    | .error e => return ⟨"", some e⟩
    | s => throw s
  | .ok forms =>
    let values ← Run.make fun w => w.loadItems [] forms
    let (output, outcome) ← Run.captured (i.evalForms limits .nil values)
    match outcome with
    | .ok _ => return ⟨output, none⟩
    | .error (.returned _) => return ⟨output, none⟩
    | .error (.error e) => return ⟨output, some e⟩
    | .error .tooDeep => return ⟨output, some ⟨.tooDeep, none⟩⟩
    | .error s => throw s

/-- The value of the last form of a text, or the one that a `return` hands over. -/
def evaluate (i : Interpreter) (limits : Limits) (source : String) : Run Value := do
  let forms ← Run.read limits.room source
  tryCatch (Run.orStackOverflow (i.evalForms limits .nil forms)) fun
    | .returned v => pure v
    | s => throw s

/-- Expands a form once if it is a macro call; any other form is given as it is. -/
def expandOnce (i : Interpreter) (limits : Limits) (form : Value) : Run Value := do
  let site : Site := ⟨i.env, i.macros, none, limits.room⟩
  match form with
  | .cell r =>
    match ← Run.look fun w => (w.cell r).car with
    | .sym s =>
      match ← Run.look (·.transformer? i.macros s) with
      | some t =>
        let args ← Evaluator.macroArguments site.room (← Run.look fun w => (w.cell r).cdr)
        (evaluator limits.fuel).expand site args t
      | none => return form
    | _ => return form
  | _ => return form

end Interpreter

end TemplateLisp
