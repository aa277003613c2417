import TemplateLisp.ParameterList

/-!
# Evaluating

Evaluation is written against an `Evaluator`, which evaluates a form or calls a function one level
further down; tying the knot is left to the module that puts the parts together.

A form may be evaluated in tail position. Then a call of a closure is not carried out but handed
back as an `Answer.call`, for the trampoline of whoever evaluates to carry out. Outside of tail
position there is no such answer: the type of answers says so.
-/

namespace TemplateLisp

/-- Where an evaluation takes place. -/
structure Site where
  env : FrameRef
  macros : MacroTableRef
  /-- The macros that functions called from a built-in function see. Without any, each such call
  sees an empty table of its own. -/
  ambient : Option MacroTableRef
  room : Room
deriving DecidableEq, Inhabited

/-- The site one level further down; stops if there is no room for it. -/
def Site.deeper (site : Site) : Run Site :=
  match site.room.enter? with
  | some room => pure { site with room := room }
  | none => throw .tooDeep

/-- What evaluating gives: a value or, in tail position only, a call that is still to be carried
out, with the arguments bound in the frame `env`. -/
inductive Answer : (tail : Bool) → Type where
  | value {tail : Bool} (v : Value) : Answer tail
  | call (closure : ClosureRef) (env : FrameRef) : Answer true
deriving DecidableEq

instance {tail : Bool} : Inhabited (Answer tail) := ⟨.value .nil⟩

/-- The value of an answer outside of tail position. -/
def Answer.get : Answer false → Value
  | .value v => v

/-- How to evaluate a form and how to call a function from a built-in function. -/
structure Evaluator where
  eval : (tail : Bool) → Site → Value → Run (Answer tail)
  call : Site → Value → List Value → Run Value

namespace Run

/-- Gives errors that have no place yet the place of a form. -/
@[inline] def placed {α : Type} (pos : Option Pos) (x : Run α) : Run α :=
  tryCatch x fun
    | .error e => throw (.error (e.placedAt pos))
    | s => throw s

end Run

namespace Evaluator

/-- The value of a form outside of tail position. -/
@[inline] def value (e : Evaluator) (site : Site) (v : Value) : Run Value := do
  return (← e.eval false site v).get

/-- Carries out calls in tail position, at most `fuel` of them in a row. -/
def complete (e : Evaluator) (site : Site) : (fuel : Nat) → Answer true → Run Value
  | _, .value v => pure v
  | 0, .call _ _ => throw .endless
  | n + 1, .call r env => do
    let body ← Run.look fun w => (w.closure r).body
    complete e site n (← e.eval true { site with env := env } body)

/-- Evaluates forms in order; the last one is in tail position. -/
def sequence (e : Evaluator) (tail : Bool) (site : Site) : List Value → Run (Answer tail)
  | [] => pure (.value .nil)
  | [v] => e.eval tail site v
  | v :: vs => do
    discard <| e.value site v
    sequence e tail site vs

/-- Evaluates forms in order, for what they do. -/
def each (e : Evaluator) (site : Site) : List Value → Run Unit
  | [] => pure ()
  | v :: vs => do
    discard <| e.value site v
    each e site vs

/-- Evaluates the arguments of a call from left to right. The list of arguments is walked as it
stands when each is reached. -/
def arguments (e : Evaluator) (site : Site) : (fuel : Nat) → (found : List Value) → Value →
    Run (List Value)
  | 0, _, _ => throw .endless
  | n + 1, found, v =>
    match v with
    | .cell r => do
      let x ← e.value site (← Run.look fun w => (w.cell r).car)
      arguments e site n (x :: found) (← Run.look fun w => (w.cell r).cdr)
    | .nil => pure found.reverse
    | _ => Run.fail (.form .improperArguments)

end Evaluator

namespace Run

/-- The results of `f` on the elements of a vector from an index on; `found` holds those so far,
last one first. The vector is walked as it stands when each element is reached. -/
def mapVectorAt {α : Type} (f : Value → Run α) (r : VectorRef) :
    (fuel index : Nat) → (found : List α) → Run (List α)
  | 0, _, _ => throw .endless
  | n + 1, index, found => do
    match (← look (·.vector r))[index]? with
    | none => return found.reverse
    | some v => mapVectorAt f r n (index + 1) ((← f v) :: found)

/-- The entries of a map from the one with `left` entries to go, their values replaced by `f`; the
map had `size` entries at the start and must keep that number. -/
def mapEntriesAt (f : Value → Run Value) (r : MapRef) (size : Nat) :
    (left : Nat) → (found : List (Value × Value)) → Run (List (Value × Value))
  | left, found => do
    let es ← look (·.entries r)
    if es.length ≠ size then crash .mapResized
    else
      match left with
      | 0 => return found.reverse
      | left + 1 =>
        match es[size - (left + 1)]? with
        | none => return found.reverse
        | some (k, v) =>
          let x ← f v
          mapEntriesAt f r size left ((k, x) :: found)

/-- A new map with the keys of another and the values that `f` gives for its values. -/
def mapEntries (f : Value → Run Value) (r : MapRef) : Run Value := do
  let size := (← look (·.entries r)).length
  map (← mapEntriesAt f r size size [])

end Run

end TemplateLisp
