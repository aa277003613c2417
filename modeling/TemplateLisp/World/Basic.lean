import TemplateLisp.Value

/-!
# Worlds

A `World` is everything that an evaluation can change or make: the objects of the heap, the frames
of bindings, the tables of macros and the text written so far. Objects are only ever added, and a
reference is the index at which its object was added, so an object that exists keeps its reference.

What may change afterwards: the two halves of a pair, the elements of a vector, the entries of a
map, the variables of a frame, a table of macros, what is left of a one-shot sequence and the fields
of an object of the host. A reference that is out of range reads as an empty object.
-/

namespace TemplateLisp

/-! ## Objects -/

/-- A pair. `pos` is where the form that the pair heads starts in its source. -/
structure Cell where
  car : Value
  cdr : Value
  pos : Option Pos
deriving DecidableEq, Inhabited

/-- The parameters of a function: required ones, optional ones, and one for the rest. -/
structure ParameterList where
  required : List Symbol
  optional : List Symbol
  rest : Option Symbol
deriving DecidableEq, Inhabited, Repr

/-- All parameters in order. -/
def ParameterList.names (p : ParameterList) : List Symbol :=
  p.required ++ p.optional ++ p.rest.toList

/-- A function written in the language, with the frame it was made in. -/
structure Closure where
  params : Value
  formals : ParameterList
  body : Value
  env : FrameRef
  name : Option String
deriving DecidableEq, Inhabited

/-- The variables of one scope, oldest first, and the scope around it. The variables are the entries
of a map: their keys are symbols unless another key has been written to it. -/
structure Frame where
  vars : List (Value × Value)
  outer : Option FrameRef
deriving DecidableEq, Inhabited

/-- The macros that every interpreter starts with. -/
inductive BuiltinMacro where
  | whenTrue
  | unlessTrue
  | incf
  | decf
deriving DecidableEq, Inhabited, Repr

/-- What expands a macro call. -/
inductive Transformer where
  | closure (r : ClosureRef)
  | builtin (m : BuiltinMacro)
deriving DecidableEq, Inhabited

/-- Macros by name. -/
abbrev MacroTable := List (Symbol × Transformer)

/-- What can be told of an object of the host without running code of the host. -/
structure HostClass where
  name : String
  /-- Whether the object resolves the names of its members itself. -/
  resolvable : Bool
  /-- How many elements a walk through the object gives at most; without a bound it is
  no sequence. -/
  elements : Option Nat
  /-- Whether the object has a size. -/
  sized : Bool
  /-- The names of members that the object has besides its fields. -/
  members : List String
deriving DecidableEq, Inhabited, Repr

/-- An object of the host. -/
structure HostObject where
  kind : HostClass
  fields : List (String × Value)
deriving DecidableEq, Inhabited

/-! ## The world -/

/-- The state of an evaluation. -/
structure World where
  cells : Array Cell
  vectors : Array (List Value)
  tuples : Array (List Value)
  maps : Array (List (Value × Value))
  closures : Array Closure
  frames : Array Frame
  macroTables : Array MacroTable
  objects : Array HostObject
  generators : Array (List Value)
  /-- What the host keeps for itself from one of its calls to the next. -/
  memory : List Value
  /-- The next mark for a value that is only identical to itself. -/
  nextMark : Nat
  /-- The text written so far. -/
  output : String
deriving Inhabited

namespace World

/-- The world before anything has happened. -/
def empty : World where
  cells := #[]
  vectors := #[]
  tuples := #[]
  maps := #[]
  closures := #[]
  frames := #[]
  macroTables := #[]
  objects := #[]
  generators := #[]
  memory := []
  nextMark := 1
  output := ""

/-! ### Looking up -/

/-- The pair at a reference. -/
def cell (w : World) (r : CellRef) : Cell := w.cells.getD r.index ⟨.nil, .nil, none⟩

/-- The elements of a vector. -/
def vector (w : World) (r : VectorRef) : List Value := w.vectors.getD r.index []

/-- The elements of a fixed sequence. -/
def tuple (w : World) (r : TupleRef) : List Value := w.tuples.getD r.index []

/-- The closure at a reference. -/
def closure (w : World) (r : ClosureRef) : Closure :=
  w.closures.getD r.index ⟨.nil, ⟨[], [], none⟩, .nil, ⟨0⟩, none⟩

/-- The frame at a reference. -/
def frame (w : World) (r : FrameRef) : Frame := w.frames.getD r.index ⟨[], none⟩

/-- The entries of a map, in the order in which their keys were first written. -/
def entries (w : World) : MapRef → List (Value × Value)
  | .own index => w.maps.getD index []
  | .vars env => (w.frame env).vars

/-- The macros of a table. -/
def macros (w : World) (r : MacroTableRef) : MacroTable := w.macroTables.getD r.index []

/-- The object of the host at a reference. -/
def object (w : World) (r : ObjectRef) : HostObject :=
  w.objects.getD r.index ⟨⟨"", false, none, false, []⟩, []⟩

/-- What is left of a one-shot sequence. -/
def generator (w : World) (r : GeneratorRef) : List Value := w.generators.getD r.index []

/-- How many objects can hold others, with each frame counted as an environment and as a map. A walk
into the depth of data that is longer meets some object twice. -/
def containers (w : World) : Nat :=
  w.cells.size + w.vectors.size + w.tuples.size + w.maps.size + 2 * w.frames.size

/-- The keys and values of entries. -/
def entryValues (entries : List (Value × Value)) : List Value := entries.flatMap fun e => [e.1, e.2]

/-- The values that an object holds. -/
def parts (w : World) : Value → List Value
  | .cell r => [(w.cell r).car, (w.cell r).cdr]
  | .vector r => w.vector r
  | .tuple r => w.tuple r
  | .map r => entryValues (w.entries r)
  | .closure r => [(w.closure r).params, (w.closure r).body, .env (w.closure r).env]
  | .object r => (w.object r).fields.map (·.2)
  | .generator r => w.generator r
  | .env r => .map (.vars r) :: ((w.frame r).outer.map Value.env).toList
  | _ => []

/-! ### Making objects -/

/-- Adds a pair. -/
def addCell (w : World) (c : Cell) : CellRef × World :=
  (⟨w.cells.size⟩, { w with cells := w.cells.push c })

/-- Adds a vector. -/
def addVector (w : World) (items : List Value) : VectorRef × World :=
  (⟨w.vectors.size⟩, { w with vectors := w.vectors.push items })

/-- Adds a fixed sequence. -/
def addTuple (w : World) (items : List Value) : TupleRef × World :=
  (⟨w.tuples.size⟩, { w with tuples := w.tuples.push items })

/-- Adds a map. -/
def addMap (w : World) (entries : List (Value × Value)) : MapRef × World :=
  (.own w.maps.size, { w with maps := w.maps.push entries })

/-- Adds a closure. -/
def addClosure (w : World) (c : Closure) : ClosureRef × World :=
  (⟨w.closures.size⟩, { w with closures := w.closures.push c })

/-- Adds a frame. -/
def addFrame (w : World) (f : Frame) : FrameRef × World :=
  (⟨w.frames.size⟩, { w with frames := w.frames.push f })

/-- Adds a table of macros. -/
def addMacroTable (w : World) (t : MacroTable) : MacroTableRef × World :=
  (⟨w.macroTables.size⟩, { w with macroTables := w.macroTables.push t })

/-- Adds an object of the host. -/
def addObject (w : World) (o : HostObject) : ObjectRef × World :=
  (⟨w.objects.size⟩, { w with objects := w.objects.push o })

/-- Adds a one-shot sequence. -/
def addGenerator (w : World) (items : List Value) : GeneratorRef × World :=
  (⟨w.generators.size⟩, { w with generators := w.generators.push items })

/-- Takes a mark that has not been taken before. -/
def takeMark (w : World) : Nat × World :=
  (w.nextMark, { w with nextMark := w.nextMark + 1 })

/-! ### Changing objects -/

/-- Replaces the first half of a pair. -/
def setCar (w : World) (r : CellRef) (v : Value) : World :=
  { w with cells := w.cells.modify r.index fun c => { c with car := v } }

/-- Replaces the second half of a pair. -/
def setCdr (w : World) (r : CellRef) (v : Value) : World :=
  { w with cells := w.cells.modify r.index fun c => { c with cdr := v } }

/-- Replaces the elements of a vector. -/
def setVector (w : World) (r : VectorRef) (items : List Value) : World :=
  { w with vectors := w.vectors.modify r.index fun _ => items }

/-- Changes the variables of a frame; the scope around it stays. -/
def updateVars (w : World) (r : FrameRef)
    (f : List (Value × Value) → List (Value × Value)) : World :=
  { w with frames := w.frames.modify r.index fun fr => { fr with vars := f fr.vars } }

/-- Replaces the entries of a map. -/
def setEntries (w : World) (r : MapRef) (entries : List (Value × Value)) : World :=
  match r with
  | .own index => { w with maps := w.maps.modify index fun _ => entries }
  | .vars env => w.updateVars env fun _ => entries

/-- Changes a table of macros. -/
def updateMacros (w : World) (r : MacroTableRef) (f : MacroTable → MacroTable) : World :=
  { w with macroTables := w.macroTables.modify r.index f }

/-- Replaces what is left of a one-shot sequence. -/
def setGenerator (w : World) (r : GeneratorRef) (items : List Value) : World :=
  { w with generators := w.generators.modify r.index fun _ => items }

/-- Replaces the fields of an object of the host. -/
def setFields (w : World) (r : ObjectRef) (fields : List (String × Value)) : World :=
  { w with objects := w.objects.modify r.index fun o => { o with fields := fields } }

/-- Keeps a value for the host. -/
def remember (w : World) (v : Value) : World := { w with memory := w.memory ++ [v] }

/-- Appends a text to the output. -/
def emit (w : World) (text : String) : World := { w with output := w.output ++ text }

end World

end TemplateLisp
