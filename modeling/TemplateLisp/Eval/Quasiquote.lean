import TemplateLisp.Eval.Basic

/-!
# Templates

`quasiquote` copies a template and evaluates the holes in it. A hole is `(unquote x)`, which stands
for the value of `x`, or `(unquote-splicing x)` as an element of a list or vector, which stands for
the elements of the value of `x`. Inside a nested `quasiquote` a hole is copied; it counts as one
level less deep.
-/

namespace TemplateLisp

namespace World

/-- The operand of a two-element list that is headed by the symbol with the given name. -/
def operand? (w : World) (name : String) : Value → Option Value
  | .cell r =>
    match (w.cell r).car, (w.cell r).cdr with
    | .sym s, .cell q =>
      if s.name = name && (w.cell q).cdr = .nil then some (w.cell q).car else none
    | _, _ => none
  | _ => none

end World

namespace Quasiquote

/-- The list of a quoting symbol and an operand. -/
def marked (name : String) (x : Value) : Run Value := Run.list [.sym ⟨name⟩, x]

/-- The elements that a value contributes to the list it is spliced into. -/
def spliced (room : Room) (v : Value) : Run (List Value) := do
  match v with
  | .nil => return []
  | .cell _ => Run.properItems room v
  | .vector r => Run.look (·.vector r)
  | .tuple r => Run.look (·.tuple r)
  | _ => Run.fail (.type (.spliceNotList (← Run.typeName v)))

/-- What an element of a list or vector contributes: the elements of the value of a splicing hole,
or its copy. -/
def element (e : Evaluator) (site : Site) (nesting : Nat) (copy : Value → Run Value) (v : Value) :
    Run (List Value) := do
  match nesting, ← Run.look (·.operand? "unquote-splicing" v) with
  | 0, some x => spliced site.room (← e.value site x)
  | _, _ => return [← copy v]

/-- Copies the list that begins with the pair `first`; `found` holds the elements so far, last one
first. A hole may also stand behind the dot. The list is walked as it stands when each pair is
reached; an evaluation may have led it back to its first pair, which is no hole even if it looks
like one by then. -/
def spine (e : Evaluator) (site : Site) (nesting : Nat) (copy : Value → Run Value)
    (first : CellRef) : (fuel : Nat) → (found : List Value) → Value → Run Value
  | 0, _, _ => throw .endless
  | n + 1, found, v =>
    match v with
    | .cell r => do
      if (← Run.look (·.operand? "unquote" v)).isSome && r ≠ first then
        Run.listWithTail found.reverse (← copy v)
      else
        let new ← element e site nesting copy (← Run.look fun w => (w.cell r).car)
        spine e site nesting copy first n (new.reverse ++ found) (← Run.look fun w =>
          (w.cell r).cdr)
    | .nil => Run.list found.reverse
    | _ => do Run.listWithTail found.reverse (← copy v)

/-- Copies the elements of a vector. -/
def elements (e : Evaluator) (site : Site) (nesting : Nat) (copy : Value → Run Value) (fuel : Nat)
    (r : VectorRef) : Run (List Value) := do
  return (← Run.mapVectorAt (element e site nesting copy) r fuel 0 []).flatten

/-- Copies a template that lies `nesting` quasiquotes further in. -/
def copy (e : Evaluator) : (fuel : Nat) → Site → (nesting : Nat) → Value → Run Value
  | 0, _, _, _ => throw .endless
  | n + 1, site, nesting, v =>
    match v with
    | .cell r => do
      let inner ← site.deeper
      match ← Run.look (·.operand? "unquote" v) with
      | some x =>
        match nesting with
        | 0 => e.value inner x
        | d + 1 => marked "unquote" (← copy e n inner d x)
      | none =>
        match ← Run.look (·.operand? "unquote-splicing" v) with
        | some x =>
          match nesting with
          | 0 => Run.fail (.form .spliceOutsideList)
          | d + 1 => marked "unquote-splicing" (← copy e n inner d x)
        | none =>
          match ← Run.look (·.operand? "quasiquote" v) with
          | some x => marked "quasiquote" (← copy e n inner (nesting + 1) x)
          | none => spine e inner nesting (copy e n inner nesting) r n [] v
    | .vector r => do
      let inner ← site.deeper
      Run.vector (← elements e inner nesting (copy e n inner nesting) n r)
    | .map r => do
      let inner ← site.deeper
      Run.mapEntries (copy e n inner nesting) r
    | _ => pure v

end Quasiquote

end TemplateLisp
