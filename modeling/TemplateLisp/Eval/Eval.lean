import TemplateLisp.Eval.Apply
import TemplateLisp.Eval.SpecialForm
import TemplateLisp.Host.Member

/-!
# The evaluator

A symbol has the value it is bound to, a keyword is its own value, a vector or map is made anew from
the values of its elements, and every other atom is its own value. A pair is a form: the head
decides, as a macro, a special form, a member name, a keyword or else a function to call. Errors
without a place get that of the innermost form that has one.

`eval` and `call` are bounded by `fuel`, which limits the depth of the evaluation and the length of
every loop in it. More fuel never changes an evaluation that ends; one that runs out ends as
`Stop.endless`.
-/

namespace TemplateLisp

namespace Evaluator

variable [Host]

/-- Calls the value of a head with the values of the arguments of a form. -/
def callHead (e : Evaluator) (fuel : Nat) (tail : Bool) (site : Site) (r : CellRef)
    (head f : Value) : Run (Answer tail) := do
  if f.isCallable then
    let args ← e.arguments site fuel [] (← Run.look fun w => (w.cell r).cdr)
    e.apply fuel tail site f args
  else
    let headText ← Run.plain site.room head
    Run.fail (.form (.notCallable headText (← Run.shown site.room f)))

/-- Reaches a member of the value of the first argument. -/
def memberForm (e : Evaluator) (fuel : Nat) (site : Site) (r : CellRef) (s : Symbol) :
    Run Value := do
  match ← e.arguments site fuel [] (← Run.look fun w => (w.cell r).cdr) with
  | [] => Run.fail (.form (.receiverMissing s.name))
  | receiver :: args => Run.member site.room (e.hostCaller site) receiver s.bareName args

/-- The argument forms of a special form; anything but a list counts as none. -/
def specialArguments (site : Site) (v : Value) : Run (List Value) :=
  match v with
  | .cell _ => Run.properItems site.room v
  | _ => pure []

/-- Evaluates a form that is headed by a symbol. -/
def symbolForm (e : Evaluator) (fuel : Nat) (tail : Bool) (site : Site) (r : CellRef)
    (s : Symbol) : Run (Answer tail) := do
  match ← Run.look (·.transformer? site.macros s) with
  | some t =>
    let args ← macroArguments site.room (← Run.look fun w => (w.cell r).cdr)
    e.eval tail site (← e.expand site args t)
  | none =>
    match SpecialForm.ofName? s.name with
    | some f =>
      let args ← specialArguments site (← Run.look fun w => (w.cell r).cdr)
      f.run e fuel tail site args
    | none =>
      if s.isMember then return .value (← e.memberForm fuel site r s)
      else if s.isKeyword then
        let args ← e.arguments site fuel [] (← Run.look fun w => (w.cell r).cdr)
        return .value (← Maps.ofKeyword s args)
      else e.callHead fuel tail site r (.sym s) (← Run.lookup site.env s)

/-- Evaluates the form that a pair heads. -/
def form (e : Evaluator) (fuel : Nat) (tail : Bool) (site : Site) (r : CellRef) :
    Run (Answer tail) := do
  match ← Run.look fun w => (w.cell r).car with
  | .sym s => e.symbolForm fuel tail site r s
  | head => e.callHead fuel tail site r head (← e.value site head)

/-- Evaluates anything. -/
def any (e : Evaluator) (fuel : Nat) (tail : Bool) (site : Site) (v : Value) :
    Run (Answer tail) := do
  match v with
  | .cell r =>
    let inner ← site.deeper
    Run.placed (← Run.look fun w => (w.cell r).pos) (e.form fuel tail inner r)
  | .sym s => if s.isKeyword then return .value v else return .value (← Run.lookup site.env s)
  | .vector r =>
    let inner ← site.deeper
    return .value (← Run.vector (← Run.mapVectorAt (e.value inner) r fuel 0 []))
  | .map r =>
    let inner ← site.deeper
    return .value (← Run.mapEntries (e.value inner) r)
  | _ => return .value v

end Evaluator

variable [Host]

mutual
/-- Evaluates a form, in tail position or not. -/
def eval (fuel : Nat) (tail : Bool) (site : Site) (v : Value) : Run (Answer tail) :=
  match fuel with
  | 0 => throw .endless
  | n + 1 => Evaluator.any ⟨eval n, call n⟩ n tail site v
termination_by structural fuel

/-- Calls a function value with evaluated arguments, to completion. -/
def call (fuel : Nat) (site : Site) (f : Value) (args : List Value) : Run Value :=
  match fuel with
  | 0 => throw .endless
  | n + 1 => Evaluator.callBack ⟨eval n, call n⟩ n site f args
termination_by structural fuel
end

/-- The evaluator that goes at most `fuel` levels deep. -/
def evaluator (fuel : Nat) : Evaluator := ⟨eval fuel, call fuel⟩

/-- Evaluates a form to completion. -/
def evaluate (fuel : Nat) (site : Site) (v : Value) : Run Value := do
  (evaluator fuel).complete site fuel (← eval fuel true site v)

end TemplateLisp
