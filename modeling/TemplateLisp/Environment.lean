import TemplateLisp.Run

/-!
# Environments

What an evaluation does with the environment that it takes place in: it makes frames, binds and
assigns names and looks them up.
-/

namespace TemplateLisp

namespace Run

/-- A new frame inside `outer`. -/
def newFrame (outer : Option FrameRef) : Run FrameRef := make (·.addFrame ⟨[], outer⟩)

/-- Binds a name in a frame. -/
def define (env : FrameRef) (name : Symbol) (value : Value) : Run Unit :=
  modify (·.define env name value)

/-- Assigns to a name. -/
def assign (env : FrameRef) (name : Symbol) (value : Value) : Run Unit :=
  modify (·.assign env name value)

/-- The value of a name; stops if it has none. -/
def lookup (env : FrameRef) (name : Symbol) : Run Value := do
  match ← look (·.lookup? env name) with
  | some v => return v
  | none => fail (.unbound name.name)

/-- The name that a value stands for: a symbol, or a text as the name of one. -/
def symbolNamed (room : Room) : Value → Run Symbol
  | .sym s => pure s
  | .str s => pure ⟨s⟩
  | v => do fail (.form (.notASymbolName (← shown room v)))

end Run

end TemplateLisp
