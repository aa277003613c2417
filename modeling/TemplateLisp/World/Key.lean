import TemplateLisp.World.Basic

/-!
# Keys of maps

A map tells its keys apart by value: numbers and truth values of equal value are one key, fixed
sequences are compared element by element, and everything else is the key that it is. Pairs, vectors
and maps cannot be keys, nor can fixed sequences that hold one.
-/

namespace TemplateLisp.World

/-- Whether two values are one key, through at most `levels` levels of fixed sequences. -/
def sameKeyAt (w : World) : (levels : Nat) → Value → Value → Bool
  | 0, _, _ => false
  | n + 1, a, b =>
    a = b ||
      match a.numeric?, b.numeric? with
      | some x, some y => x.eqv y
      | _, _ =>
        match a, b with
        | .tuple r, .tuple s =>
          (w.tuple r).length = (w.tuple s).length &&
            ((w.tuple r).zip (w.tuple s)).all fun (x, y) => sameKeyAt w n x y
        | _, _ => false

/-- Whether two values are one key of a map. -/
def sameKey (w : World) (a b : Value) : Bool := w.sameKeyAt (w.tuples.size + 1) a b

/-- Whether a value may be a key, through at most `levels` levels of fixed sequences. -/
def isKeyAt (w : World) : (levels : Nat) → Value → Bool
  | 0, _ => false
  | _ + 1, .cell _ => false
  | _ + 1, .vector _ => false
  | _ + 1, .map _ => false
  | n + 1, .tuple r => (w.tuple r).all (isKeyAt w n)
  | _ + 1, _ => true

/-- Whether a value may be a key of a map. -/
def isKey (w : World) (v : Value) : Bool := w.isKeyAt (w.tuples.size + 1) v

/-- The value of the entry with the given key. -/
def findKey? (w : World) (entries : List (Value × Value)) (key : Value) : Option Value :=
  (entries.find? fun e => w.sameKey e.1 key).map (·.2)

/-- Writes an entry: a key that is there keeps its place and its spelling, a new one goes last. -/
def putKey (w : World) (key value : Value) : List (Value × Value) → List (Value × Value)
  | [] => [(key, value)]
  | (k, v) :: rest =>
    if w.sameKey k key then (k, value) :: rest else (k, v) :: putKey w key value rest

end TemplateLisp.World
