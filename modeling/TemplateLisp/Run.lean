import TemplateLisp.World.Equality
import TemplateLisp.World.TypeName
import TemplateLisp.World.Unfold

/-!
# Runs

A run transforms the world and gives a result or stops. The world is kept either way: what was done
before an error stays done.
-/

namespace TemplateLisp

/-- A computation on the world that may stop. -/
abbrev Run := EStateM Stop World

namespace Run

/-- Looks something up in the world. -/
@[inline] def look {α : Type} (f : World → α) : Run α := fun w => .ok (f w) w

/-- Looks something up in the world, or stops. -/
@[inline] def lookOrStop {α : Type} (f : World → Except Stop α) : Run α := fun w =>
  match f w with
  | .ok a => .ok a w
  | .error s => .error s w

/-- Stops with an error that has no place yet. -/
@[inline] def fail {α : Type} (f : Fault) : Run α := throw (.ofFault f)

/-- Stops with a failure of the host. -/
@[inline] def crash {α : Type} (f : HostFault) : Run α := throw (.crash f)

/-- Makes an object. -/
@[inline] def make {α : Type} (f : World → α × World) : Run α := modifyGet f

/-! ## Making values -/

/-- A new pair. -/
def cons (car cdr : Value) (pos : Option Pos) : Run Value :=
  make fun w => let (r, w) := w.addCell ⟨car, cdr, pos⟩; (.cell r, w)

/-- A new list that ends in `tail`. -/
def listWithTail (items : List Value) (tail : Value) : Run Value := make (·.addList items tail)

/-- A new proper list. -/
def list (items : List Value) : Run Value := listWithTail items .nil

/-- A new vector. -/
def vector (items : List Value) : Run Value :=
  make fun w => let (r, w) := w.addVector items; (.vector r, w)

/-- A new fixed sequence. -/
def tuple (items : List Value) : Run Value :=
  make fun w => let (r, w) := w.addTuple items; (.tuple r, w)

/-- A new map. -/
def map (entries : List (Value × Value)) : Run Value :=
  make fun w => let (r, w) := w.addMap entries; (.map r, w)

/-- A number as a value; one that is not a number is marked as a new object. -/
def number : Number → Run Value
  | .float (.nan _) => make fun w => let (m, w) := w.takeMark; (.num (.float (.nan m)), w)
  | .dec (.nan _) => make fun w => let (m, w) := w.takeMark; (.num (.dec (.nan m)), w)
  | n => pure (.num n)

/-! ## Texts and types -/

/-- A value as messages show it. -/
def shown (room : Room) (v : Value) : Run String := lookOrStop fun w => w.shown room v

/-- A value as it stands bare in a message. -/
def plain (room : Room) (v : Value) : Run String := lookOrStop fun w => w.plain room v

/-- The text of a value for display. -/
def displayed (room : Room) (v : Value) : Run String := lookOrStop fun w => w.displayText room v

/-- The name of the type of a value. -/
def typeName (v : Value) : Run String := look fun w => w.typeName v

/-- Stops because an argument has the wrong shape. -/
def wrongArgument {α : Type} (function : String) (index : Nat) (expected : String) (v : Value) :
    Run α := do
  fail (.type (.argument function index expected (← typeName v)))

/-- Stops because a list does not end in `nil`. -/
def improperList {α : Type} (room : Room) (v : Value) : Run α := do
  let text ← lookOrStop fun w => w.readableText room v
  fail (.type (.improperList text))

/-! ## Lists -/

/-- The pairs of a list and what it ends in; stops if it has no end. -/
def spine (v : Value) : Run (List Cell × Value) :=
  lookOrStop fun w => match w.spine? v with
    | some s => .ok s
    | none => .error .endless

/-- The elements of a proper list; stops at a dotted one. -/
def properItems (room : Room) (v : Value) : Run (List Value) := do
  let (cells, tail) ← spine v
  if tail = .nil then return cells.map (·.car) else improperList room v

end Run

end TemplateLisp
