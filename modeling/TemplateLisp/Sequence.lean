import TemplateLisp.Host.Code

/-!
# Sequences

What can be walked through element by element: lists, vectors, fixed sequences, texts (their
characters), bytes (as integers), maps (as two-element lists of key and value) and sequences of the
host. A `Cursor` is a place in such a walk. Walking is live: a list, vector or map that is changed
on the way shows its new state, and a map that has got a new key cannot be walked on.
-/

namespace TemplateLisp

/-- A place in a walk through a sequence. -/
inductive Cursor where
  /-- In the list `whole`, behind the pair `behind` or at the start. -/
  | list (whole : Value) (behind : Option CellRef)
  /-- In front of elements that nothing can change. -/
  | items (rest : List Value)
  /-- In front of the entry `index` of a map that had `size` entries at the start. -/
  | entries (r : MapRef) (index size : Nat)
  | generator (r : GeneratorRef)
  /-- In front of the element `index` of a vector. -/
  | vector (r : VectorRef) (index : Nat)
  /-- In front of the element `index` of an object of the host. -/
  | object (r : ObjectRef) (index : Nat)
deriving Inhabited

namespace World

/-- The start of a walk through a value, if it is a sequence. -/
def cursor? (w : World) : Value → Option Cursor
  | .nil => some (.items [])
  | .cell r => some (.list (.cell r) none)
  | .vector r => some (.vector r 0)
  | .tuple r => some (.items (w.tuple r))
  | .str s => some (.items (s.toList.map fun c => .str (String.singleton c)))
  | .bytes bs => some (.items (bs.map fun b => .int b.toNat))
  | .map r => some (.entries r 0 (w.entries r).length)
  | .generator r => some (.generator r)
  | .object r => if (w.object r).kind.elements.isSome then some (.object r 0) else none
  | _ => none

/-- What follows in a list behind a pair, as things stand now. -/
def restOf (w : World) (whole : Value) : (behind : Option CellRef) → Value
  | none => whole
  | some r => (w.cell r).cdr

/-- A bound on the steps of a walk during which nothing else happens, if it ends at all. -/
def walkLength (w : World) : Cursor → Nat
  | .list _ _ => w.cells.size + 2
  | .items rest => rest.length + 2
  | .entries _ _ size => size + 2
  | .generator r => (w.generator r).length + 2
  | .vector r _ => (w.vector r).length + 2
  | .object r _ => (w.object r).kind.elements.getD 0 + 2

end World

namespace Cursor

variable [Host]

/-- The next element and the place behind it. -/
def next (room : Room) : Cursor → Run (Option (Value × Cursor))
  | .list whole behind => do
    match ← Run.look (·.restOf whole behind) with
    | .cell r => return some (← Run.look fun w => (w.cell r).car, .list whole (some r))
    | .nil => return none
    | _ => Run.improperList room whole
  | .items [] => pure none
  | .items (v :: vs) => pure (some (v, .items vs))
  | .entries r index size => do
    let es ← Run.look (·.entries r)
    if es.length ≠ size then Run.crash .mapResized
    else
      match es[index]? with
      | none => return none
      | some (k, v) => return some (← Run.list [k, v], .entries r (index + 1) size)
  | .generator r => do
    match ← Run.look (·.generator r) with
    | [] => return none
    | v :: vs =>
      modify (·.setGenerator r vs)
      return some (v, .generator r)
  | .vector r index => do
    match (← Run.look (·.vector r))[index]? with
    | none => return none
    | some v => return some (v, .vector r (index + 1))
  | .object r index => do
    match ← Host.elementAt room r index with
    | none => return none
    | some v => return some (v, .object r (index + 1))

/-- Applies `f` to the elements from here on, in at most `fuel` steps; `found` holds the results so
far, last one first. -/
def mapAt {α : Type} (room : Room) (f : Value → Run α) :
    (fuel : Nat) → (found : List α) → Cursor → Run (List α)
  | 0, _, _ => throw .endless
  | n + 1, found, c => do
    match ← c.next room with
    | none => return found.reverse
    | some (v, c) => mapAt room f n ((← f v) :: found) c

/-- Applies `f` to the elements from here on, one by one. Nothing may be added to the sequence
meanwhile. -/
def map {α : Type} (room : Room) (f : Value → Run α) (c : Cursor) : Run (List α) := do
  mapAt room f (← Run.look (·.walkLength c)) [] c

/-- All elements from here on. -/
def toList (room : Room) (c : Cursor) : Run (List Value) := c.map room pure

end Cursor

namespace Run

/-- The start of a walk through an argument that must be a sequence. -/
def cursor (function : String) (index : Nat) (v : Value) : Run Cursor := do
  match ← look (·.cursor? v) with
  | some c => return c
  | none => wrongArgument function index "a sequence" v

variable [Host]

/-- The elements of an argument that must be a sequence, all at once. A dotted list is refused as a
whole, and so is a host sequence that breaks off with a type error. -/
def items (room : Room) (function : String) (index : Nat) (v : Value) : Run (List Value) := do
  match v with
  | .cell _ =>
    let (cells, tail) ← spine v
    if tail = .nil then return cells.map (·.car)
    else wrongArgument function index "a proper list" v
  | _ =>
    let c ← cursor function index v
    tryCatch (c.toList room) fun
      | .crash f =>
        if f.kind = .typeError then wrongArgument function index "a sequence" v
        else throw (.crash f)
      | s => throw s

/-- The size of a value. -/
def size (room : Room) (v : Value) : Run Nat := do
  match v with
  | .object r =>
    if (← look (·.object r)).kind.sized then Host.sizeOf room r
    else crash (.notSized (← look (·.qualifiedTypeName v)))
  | _ => lookOrStop (·.sizeOf room v)

end Run

end TemplateLisp
