import TemplateLisp.Builtin.Argument
import TemplateLisp.Sorting

/-!
# Sequences

Functions on sequences. A function that calls back takes the elements first and calls afterwards,
once for each element, from left to right; what a call-back does to the sequence comes too late to
show. Lists that are made here are new, except that `append` ends in its last argument and `rest` of
a list is the list's own.
-/

namespace TemplateLisp.Sequences

variable [Host]

/-! ## Higher-order functions -/

/-- The values that pass a test, behind those in `kept`, which come last one first. -/
def keep (test : Value → Run Value) (kept : List Value) : List Value → Run (List Value)
  | [] => pure kept.reverse
  | v :: vs => do
    if (← test v).isTruthy then keep test (v :: kept) vs else keep test kept vs

/-- The elements that pass a test, as a list. -/
def filter (room : Room) (call : Caller) (u v : Value) : Run Value := do
  let test ← Argument.function "filter" 0 u
  let items ← Run.items room "filter" 1 v
  Run.list (← keep (fun x => call test [x]) [] items)

/-- The elements of arguments, the first of which has the given index. -/
def columns (room : Room) (name : String) : (index : Nat) → List Value → Run (List (List Value))
  | _, [] => pure []
  | i, v :: vs => do
    let items ← Run.items room name i v
    return items :: (← columns room name (i + 1) vs)

/-- The rows of columns, down to the end of the shortest. -/
def rows : List (List Value) → List (List Value)
  | [] => []
  | [c] => c.map fun v => [v]
  | c :: cs => (c.zip (rows cs)).map fun (v, row) => v :: row

/-- The results of a function on the rows of sequences, as a list. -/
def map (room : Room) (call : Caller) (u v : Value) (vs : List Value) : Run Value := do
  let f ← Argument.function "map" 0 u
  let cs ← columns room "map" 1 (v :: vs)
  Run.list (← (rows cs).mapM (call f))

/-- Folds a function over values from the left. -/
def foldLeft (f : Value → Value → Run Value) (acc : Value) : List Value → Run Value
  | [] => pure acc
  | v :: vs => do foldLeft f (← f acc v) vs

/-- Folds a function over a sequence. Without a start the first element is it; an empty sequence
then gives the function called without arguments. -/
def reduce (room : Room) (call : Caller) (u v : Value) (start : Option Value) : Run Value := do
  let f ← Argument.function "reduce" 0 u
  let items ← Run.items room "reduce" 1 v
  let step := fun a x => call f [a, x]
  match start, items with
  | some a, _ => foldLeft step a items
  | none, a :: rest => foldLeft step a rest
  | none, [] => call f []

/-! ## Sorting -/

/-- Whether a function of the program puts one value before another. If it does not, it is asked the
other way round as well, to tell equals apart. -/
def precedes (call : Caller) (less u v : Value) : Run Bool := do
  if (← call less [u, v]).isTruthy then return true
  discard <| call less [v, u]
  return false

/-- Whether one number or text is less than another. -/
def lessThan (u v : Value) : Run Bool := do
  match u, v with
  | .num a, .num b =>
    match a.lt b with
    | .ok less => return less
    | .error f => Run.crash (.number f)
  | .str s, .str t => return s < t
  | _, _ => Run.fail (.type (.incomparable (← Run.typeName u) (← Run.typeName v)))

/-- The elements in order, as a list. -/
def sort (room : Room) (call : Caller) (v : Value) (less : Option Value) : Run Value := do
  let items ← Run.items room "sort" 0 v
  match less with
  | none => Run.list (← Sorting.sort lessThan items)
  | some u =>
    let f ← Argument.function "sort" 1 u
    Run.list (← Sorting.sort (precedes call f) items)

/-! ## Elements -/

/-- The elements of the sequences that are indexed as they stand. -/
def indexed? (w : World) : Value → Option (List Value)
  | .vector r => some (w.vector r)
  | .tuple r => some (w.tuple r)
  | .str s => some (s.toList.map fun c => .str (String.singleton c))
  | _ => none

/-- The elements that an index counts. -/
def indexedItems (room : Room) (v : Value) : Run (List Value) := do
  match ← Run.look (indexed? · v) with
  | some items => return items
  | none => Run.items room "nth" 0 v

/-- The element at an index that is counted from zero. -/
def nth (room : Room) (u v : Value) : Run Value := do
  let n ← Argument.integer "nth" 1 v
  let items ← indexedItems room u
  match (if n < 0 then none else items[n.toNat]?) with
  | some x => return x
  | none =>
    match Number.intText? n with
    | some index => Run.fail (.outOfRange index)
    | none => Run.crash .integerTextTooLong

/-- The number of elements. What has a size is measured, lists apart. -/
def count (room : Room) (v : Value) : Run Value := do
  match v with
  | .nil => return .int 0
  | .cell _ => return .int (← Run.items room "/count" 0 v).length
  | _ =>
    if ← Run.look (·.isSized v) then return .int (← Run.size room v)
    else return .int (← Run.items room "/count" 0 v).length

/-- The first element, or `nil`. -/
def first (room : Room) (v : Value) : Run Value := do
  let c ← Run.cursor "first" 0 v
  match ← c.next room with
  | some (x, _) => return x
  | none => return .nil

/-- The second element, or `nil`. -/
def second (room : Room) (v : Value) : Run Value := do
  return (← Run.items room "second" 0 v)[1]?.getD .nil

/-- All elements but the first, as a list. -/
def rest (room : Room) (v : Value) : Run Value := do
  match v with
  | .cell r => Run.look fun w => (w.cell r).cdr
  | _ => Run.list (← Run.items room "rest" 0 v).tail

/-- The last element, or `nil`. -/
def last (room : Room) (v : Value) : Run Value := do
  return (← Run.items room "last" 0 v).getLast?.getD .nil

/-! ## Whole sequences -/

/-- The elements from the last to the first: a text of a text, a vector of a vector, a list of
everything else. -/
def reverse (room : Room) (v : Value) : Run Value := do
  match v with
  | .str s => return .str (String.ofList s.toList.reverse)
  | .vector _ => Run.vector (← Run.items room "reverse" 0 v).reverse
  | _ => Run.list (← Run.items room "reverse" 0 v).reverse

/-- The elements of all sequences in one list, which ends in the last of them. -/
def append (room : Room) (args : List Value) : Run Value := do
  match args.getLast? with
  | none => return .nil
  | some v =>
    let tail ← match v with
      | .nil => pure v
      | .cell _ => pure v
      | _ => do Run.list (← Run.items room "append" (args.length - 1) v)
    let items ← columns room "append" 0 args.dropLast
    Run.listWithTail items.flatten tail

/-- The integers from `start` on in steps of `step`, as many as are said. -/
def progression (start step : Int) (length : Nat) : List Value :=
  (List.range length).map fun (i : Nat) => .int (start + step * i)

/-- How many integers there are from `start` to before `stop` in steps of `step`. -/
def progressionLength (start stop step : Int) : Nat :=
  if 0 < step then (Int.fdiv (stop - start + step - 1) step).toNat
  else (Int.fdiv (start - stop - step - 1) (-step)).toNat

/-- The greatest number of elements that the host can count. -/
def maxElements : Nat := Nat.pow 2 63 - 1

/-- A list of integers in equal steps. -/
def ofRange (start stop step : Int) : Run Value :=
  let length := progressionLength start stop step
  if maxElements < length then Run.crash .tooManyElements
  else Run.list (progression start step length)

/-- The integers up to an end, from a start, in steps; one number is the end, and the end is left
out. -/
def range : List Value → Run Value
  | [u] => do ofRange 0 (← Argument.integer "range" 0 u) 1
  | [u, v] => do
    let start ← Argument.integer "range" 0 u
    ofRange start (← Argument.integer "range" 1 v) 1
  | [u, v, w] => do
    let start ← Argument.integer "range" 0 u
    let stop ← Argument.integer "range" 1 v
    let step ← Argument.integer "range" 2 w
    if step = 0 then Run.wrongArgument "range" 2 "a non-zero step" w
    else ofRange start stop step
  | args => Argument.miscounted "range" (.between 1 3) args

/-- The elements as a list; a list is given as it is. -/
def toList (room : Room) (v : Value) : Run Value := do
  match v with
  | .nil => return v
  | .cell _ => return v
  | _ => Run.list (← Run.items room "to-list" 0 v)

/-- The elements as a vector; of a map, vectors of key and value. -/
def toVector (room : Room) (v : Value) : Run Value := do
  match v with
  | .map r =>
    let entries ← Run.look (·.entries r)
    Run.vector (← entries.mapM fun (k, x) => Run.vector [k, x])
  | _ => Run.vector (← Run.items room "to-vector" 0 v)

end TemplateLisp.Sequences
