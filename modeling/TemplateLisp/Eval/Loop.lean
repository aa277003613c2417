import TemplateLisp.Eval.Basic
import TemplateLisp.Sequence

/-!
# Loops

`dolist` walks through a list, `doseq` through any sequence and `dotimes` through the integers below
a count; each turn gets a new frame that binds the variable, so that closures made in the body keep
its value. Lists and maps are walked as they stand when each element is reached. `while` binds
nothing.
-/

namespace TemplateLisp

/-- The parts of `(variable expression [result])`. -/
structure LoopSpec where
  variableName : Symbol
  source : Value
  result : Option Value
deriving Inhabited

namespace LoopSpec

/-- Takes the parts from the form that a loop is headed by. -/
def ofValue (room : Room) (form : String) (v : Value) : Run LoopSpec := do
  match v with
  | .cell _ =>
    let (variableForm, source, result) ← match ← Run.properItems room v with
      | [x, y] => pure (x, y, none)
      | [x, y, z] => pure (x, y, some z)
      | _ => Run.fail (.form (.loopSpecSize form))
    match variableForm with
    | .sym s => return ⟨s, source, result⟩
    | x => Run.fail (.form (.loopVariable form (← Run.shown room x)))
  | _ => Run.fail (.form (.loopSpecNotList form))

end LoopSpec

namespace Evaluator

variable [Host]

/-- One turn of a loop: the body in a new frame that binds the variable. -/
def turn (e : Evaluator) (site : Site) (name : Symbol) (body : List Value) (v : Value) :
    Run Unit := do
  let env ← Run.make (·.addFrame ⟨[(.sym name, v)], some site.env⟩)
  e.each { site with env := env } body

/-- A turn for each element from a place on. -/
def turns (e : Evaluator) (site : Site) (name : Symbol) (body : List Value) :
    (fuel : Nat) → Cursor → Run Unit
  | 0, _ => throw .endless
  | n + 1, c => do
    match ← c.next site.room with
    | none => return ()
    | some (v, c) =>
      e.turn site name body v
      turns e site name body n c

/-- `left` turns, counting up from `i`. -/
def countedTurns (e : Evaluator) (site : Site) (name : Symbol) (body : List Value) :
    (left i : Nat) → Run Unit
  | 0, _ => pure ()
  | left + 1, i => do
    e.turn site name body (.int i)
    countedTurns e site name body left (i + 1)

/-- The result of a loop that is over. -/
def loopResult (e : Evaluator) (site : Site) (spec : LoopSpec) : Run Value :=
  match spec.result with
  | none => pure .nil
  | some v => e.value site v

/-- Whether a value is `nil` or a pair. -/
def isListLike : Value → Bool
  | .nil => true
  | .cell _ => true
  | _ => false

/-- A loop through a sequence, which must be a list if `listsOnly`. -/
def sequenceLoop (e : Evaluator) (fuel : Nat) (site : Site) (form : String) (listsOnly : Bool)
    (specForm : Value) (body : List Value) : Run Value := do
  let spec ← LoopSpec.ofValue site.room form specForm
  let source ← e.value site spec.source
  if listsOnly && !isListLike source then
    Run.fail (.type (.loopNeedsList form (← Run.typeName source)))
  e.turns site spec.variableName body fuel (← Run.cursor form 1 source)
  e.loopResult site spec

/-- A loop that counts. -/
def countLoop (e : Evaluator) (site : Site) (specForm : Value) (body : List Value) :
    Run Value := do
  let spec ← LoopSpec.ofValue site.room "dotimes" specForm
  match ← e.value site spec.source with
  | .num (.int n) =>
    e.countedTurns site spec.variableName body n.toNat 0
    e.loopResult site spec
  | v => Run.fail (.type (.loopCount (← Run.typeName v)))

/-- Evaluates the body as long as the test holds. -/
def whileLoop (e : Evaluator) (site : Site) (test : Value) (body : List Value) :
    (fuel : Nat) → Run Unit
  | 0 => throw .endless
  | n + 1 => do
    if (← e.value site test).isTruthy then
      e.each site body
      whileLoop e site test body n

end Evaluator

end TemplateLisp
