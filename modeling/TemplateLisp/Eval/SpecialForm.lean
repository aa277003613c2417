import TemplateLisp.Eval.Loop
import TemplateLisp.Eval.Quasiquote
import TemplateLisp.Eval.Expand

/-!
# Special forms

The forms that do not evaluate their arguments like a call does. A form in tail position hands that
position on to the part whose value it gives.
-/

namespace TemplateLisp

/-- The special forms. -/
inductive SpecialForm where
  | setq | progn | definesMacro | quote | quasiquote | unquote | unquoteSplicing | fn | defn
  | bindLocally | choose | cond | conjunction | disjunction
  | dolist | doseq | dotimes | loopWhile | leave
deriving DecidableEq, Inhabited, Repr

namespace SpecialForm

variable [Host]

/-- The special form with the given name. -/
def ofName? (name : String) : Option SpecialForm :=
  match name with
  | "setq" => some .setq
  | "progn" => some .progn
  | "begin" => some .progn
  | "defmacro" => some .definesMacro
  | "quote" => some .quote
  | "quasiquote" => some .quasiquote
  | "unquote" => some .unquote
  | "unquote-splicing" => some .unquoteSplicing
  | "fn" => some .fn
  | "lambda" => some .fn
  | "defn" => some .defn
  | "defun" => some .defn
  | "let" => some .bindLocally
  | "let*" => some .bindLocally
  | "if" => some .choose
  | "cond" => some .cond
  | "and" => some .conjunction
  | "or" => some .disjunction
  | "dolist" => some .dolist
  | "doseq" => some .doseq
  | "dotimes" => some .dotimes
  | "while" => some .loopWhile
  | "return" => some .leave
  | _ => none

/-! ## Functions and macros -/

/-- The one form that stands for a body of several. -/
def body : List Value → Run Value
  | [] => pure .nil
  | [v] => pure v
  | vs => Run.list (.sym ⟨"progn"⟩ :: vs)

/-- A new closure. -/
def closure (site : Site) (params : Value) (forms : List Value) (name : Option String) :
    Run ClosureRef := do
  let body ← body forms
  let formals ← ParameterList.ofValue site.room params
  Run.make (·.addClosure ⟨params, formals, body, site.env, name⟩)

/-- `(fn (params) body ...)`. -/
def function (site : Site) : List Value → Run Value
  | params :: forms => do return .closure (← closure site params forms none)
  | [] => Run.fail (.arity .parameterList)

/-- `(defn name (params) body ...)`. -/
def defineFunction (site : Site) : List Value → Run Value
  | name :: params :: forms => do
    match name with
    | .sym s =>
      let f := .closure (← closure site params forms (some s.name))
      Run.assign site.env s f
      return f
    | v => Run.fail (.form (.functionName (← Run.shown site.room v)))
  | _ => Run.fail (.arity .functionParts)

/-- `(defmacro name (params) body ...)`. -/
def defineMacro (site : Site) : List Value → Run Value
  | name :: params :: form :: forms => do
    match name with
    | .sym s =>
      let r ← closure site params (form :: forms) (some s.name)
      modify (·.defineMacro site.macros s (.closure r))
      return .sym s
    | v => Run.fail (.form (.macroName (← Run.shown site.room v)))
  | _ => Run.fail (.arity .macroParts)

/-! ## Variables -/

/-- Assigns values to variables pair by pair; `last` is the value of the pair before. -/
def assignPairs (e : Evaluator) (site : Site) (last : Value) : List Value → Run Value
  | .sym s :: form :: rest => do
    if s.isKeyword then Run.fail (.form (.setTarget (← Run.shown site.room (.sym s))))
    else
      let v ← e.value site form
      Run.assign site.env s v
      assignPairs e site v rest
  | target :: _ :: _ => do Run.fail (.form (.setTarget (← Run.shown site.room target)))
  | _ => pure last

/-- `(setq variable value ...)`. -/
def assign (e : Evaluator) (site : Site) (args : List Value) : Run Value :=
  if args.isEmpty || args.length % 2 = 1 then Run.fail (.arity .setPairs)
  else assignPairs e site .nil args

/-- Binds one variable of a `let` in the frame of the site. -/
def bindOne (e : Evaluator) (site : Site) (binding : Value) : Run Unit := do
  let malformed : Run Unit := do
    Run.fail (.form (.malformedBinding (← Run.shown site.room binding)))
  match binding with
  | .sym s => Run.define site.env s .nil
  | .cell r =>
    match ← Run.look fun w => (w.cell r).car with
    | .sym s =>
      match ← Run.properItems site.room binding with
      | [_] => Run.define site.env s .nil
      | [_, form] => Run.define site.env s (← e.value site form)
      | _ => Run.fail (.form (.oversizedBinding (← Run.shown site.room binding)))
    | _ => malformed
  | _ => malformed

/-- Binds variables in order, each visible to those after it. -/
def bindAll (e : Evaluator) (site : Site) : (fuel : Nat) → Cursor → Run Unit
  | 0, _ => throw .endless
  | n + 1, c => do
    match ← c.next site.room with
    | none => return ()
    | some (binding, c) =>
      bindOne e site binding
      bindAll e site n c

/-- `(let ((variable value) ...) body ...)`. -/
def bindLocals (e : Evaluator) (fuel : Nat) (tail : Bool) (site : Site) :
    List Value → Run (Answer tail)
  | [] => Run.fail (.form .letWithoutBindings)
  | bindings :: forms => do
    if Evaluator.isListLike bindings then
      let env ← Run.newFrame (some site.env)
      let inner := { site with env := env }
      bindAll e inner fuel (← Run.cursor "let" 0 bindings)
      e.sequence tail inner forms
    else Run.fail (.form (.letBindingsNotList (← Run.shown site.room bindings)))

/-! ## Choices -/

/-- `(if test then [else])`. -/
def branch (e : Evaluator) (tail : Bool) (site : Site) : List Value → Run (Answer tail)
  | [test, yes] => do
    if (← e.value site test).isTruthy then e.eval tail site yes else return .value .nil
  | [test, yes, no] => do
    if (← e.value site test).isTruthy then e.eval tail site yes else e.eval tail site no
  | _ => Run.fail (.arity .condition)

/-- `(cond (test body ...) ...)`. -/
def clauses (e : Evaluator) (tail : Bool) (site : Site) : List Value → Run (Answer tail)
  | [] => pure (.value .nil)
  | .cell r :: rest => do
    match ← Run.properItems site.room (.cell r) with
    | [] => clauses e tail site rest
    | test :: forms =>
      let v ← e.value site test
      if !v.isTruthy then clauses e tail site rest
      else if forms.isEmpty then return .value v
      else e.sequence tail site forms
  | v :: _ => do Run.fail (.form (.clauseNotList (← Run.shown site.room v)))

/-- Operands up to the first whose truth is `stopAt`; the last one is in tail position. -/
def operands (e : Evaluator) (tail : Bool) (site : Site) (stopAt : Bool) (none : Value) :
    List Value → Run (Answer tail)
  | [] => pure (.value none)
  | [v] => e.eval tail site v
  | v :: vs => do
    let x ← e.value site v
    if x.isTruthy = stopAt then return .value x else operands e tail site stopAt none vs

/-! ## All special forms -/

/-- Answers with the value of a computation. -/
def answer {tail : Bool} (x : Run Value) : Run (Answer tail) := do return .value (← x)

/-- `(dolist spec body ...)` and `(doseq spec body ...)`; `role` is what a message calls the
sequence. -/
def loop (e : Evaluator) (fuel : Nat) (site : Site) (form role : String) (listsOnly : Bool) :
    List Value → Run Value
  | spec :: forms => e.sequenceLoop fuel site form listsOnly spec forms
  | [] => Run.fail (.form (.loopWithoutSpec form role))

/-- What a special form does with its arguments. -/
def run (e : Evaluator) (fuel : Nat) (tail : Bool) (site : Site) (f : SpecialForm)
    (args : List Value) : Run (Answer tail) :=
  match f with
  | .setq => answer (assign e site args)
  | .progn => e.sequence tail site args
  | .definesMacro => answer (defineMacro site args)
  | .quote =>
    match args with
    | [v] => pure (.value v)
    | _ => Run.fail (.arity .quote)
  | .quasiquote =>
    match args with
    | [v] => answer (Quasiquote.copy e fuel site 0 v)
    | _ => Run.fail (.arity .quasiquote)
  | .unquote => Run.fail (.form (.unquoteOutside "unquote"))
  | .unquoteSplicing => Run.fail (.form (.unquoteOutside "unquote-splicing"))
  | .fn => answer (function site args)
  | .defn => answer (defineFunction site args)
  | .bindLocally => bindLocals e fuel tail site args
  | .choose => branch e tail site args
  | .cond => clauses e tail site args
  | .conjunction => operands e tail site false (.bool true) args
  | .disjunction => operands e tail site true .nil args
  | .dolist => answer (loop e fuel site "dolist" "list" true args)
  | .doseq => answer (loop e fuel site "doseq" "seq" false args)
  | .dotimes =>
    match args with
    | spec :: forms => answer (e.countLoop site spec forms)
    | [] => Run.fail (.form (.loopWithoutSpec "dotimes" "count"))
  | .loopWhile =>
    match args with
    | test :: forms => do
      e.whileLoop site test forms fuel
      return .value .nil
    | [] => Run.fail (.form .whileWithoutTest)
  | .leave =>
    match args with
    | [] => throw (.returned .nil)
    | [v] => do throw (.returned (← e.value site v))
    | _ => Run.fail (.arity .returnValue)

end SpecialForm

end TemplateLisp
