import TemplateLisp.World.Basic

/-!
# Lists in the heap

A list is a chain of pairs. Its spine is the pairs in order and what the last one ends in: `nil` for
a proper list, something else for a dotted one. A chain that is longer than the number of pairs in
the heap meets one of them twice and has no end; it has no spine.
-/

namespace TemplateLisp.World

/-- Walks a chain of at most `fuel` pairs, pushing them onto `found`. -/
def spineAt (w : World) : (fuel : Nat) → (found : List Cell) → Value → Option (List Cell × Value)
  | 0, _, _ => none
  | n + 1, found, .cell r => let c := w.cell r; spineAt w n (c :: found) c.cdr
  | _ + 1, found, v => some (found.reverse, v)

/-- The pairs of a list and what it ends in, unless it has no end. -/
def spine? (w : World) (v : Value) : Option (List Cell × Value) :=
  w.spineAt (w.cells.size + 2) [] v

/-- Whether the value is a proper list, unless it has no end. -/
def isProperList? (w : World) (v : Value) : Option Bool :=
  (w.spine? v).map fun (_, tail) => tail = .nil

/-- Adds a list of the given values that ends in `tail`. -/
def addList (w : World) (items : List Value) (tail : Value) : Value × World :=
  items.reverse.foldl
    (fun (v, w) item => let (r, w) := w.addCell ⟨item, v, none⟩; (.cell r, w)) (tail, w)

end TemplateLisp.World
