/-!
# Sorting

A stable sort by insertion, for a test that may have effects. The ascending or strictly descending
run at the front is taken as it is, a descending one turned round; the elements behind it are
inserted one by one, each behind its equals, at a place that halving the sorted part finds.

`less later earlier` is always asked with the later element first.
-/

namespace TemplateLisp.Sorting

variable {m : Type → Type} [Monad m] {α : Type}

/-- Takes elements as long as each is not less than the one before it; `run` holds those taken, last
one first. -/
def ascend (less : α → α → m Bool) (last : α) (run : List α) : List α → m (List α × List α)
  | [] => pure (run, [])
  | x :: xs => do
    if ← less x last then return (run, x :: xs) else ascend less x (x :: run) xs

/-- Takes elements as long as each is less than the one before it; `run` holds those taken, last one
first. -/
def descend (less : α → α → m Bool) (last : α) (run : List α) : List α → m (List α × List α)
  | [] => pure (run, [])
  | x :: xs => do
    if ← less x last then descend less x (x :: run) xs else return (run, x :: xs)

/-- The sorted run at the front, and the elements behind it. -/
def leadingRun (less : α → α → m Bool) : List α → m (List α × List α)
  | [] => pure ([], [])
  | [x] => pure ([x], [])
  | x :: y :: rest => do
    if ← less y x then
      descend less y [y, x] rest
    else
      let (run, rest) ← ascend less y [y, x] rest
      return (run.reverse, rest)

/-- Inserts an element into a sorted list of at most `fuel` elements, behind its equals. -/
def insertWithin (less : α → α → m Bool) (x : α) : (fuel : Nat) → List α → m (List α)
  | 0, _ => pure [x]
  | n + 1, xs =>
    match xs.drop (xs.length / 2) with
    | [] => pure [x]
    | p :: after => do
      if ← less x p then
        return (← insertWithin less x n (xs.take (xs.length / 2))) ++ p :: after
      else
        return xs.take (xs.length / 2) ++ p :: (← insertWithin less x n after)

/-- Inserts an element into a sorted list, behind its equals. -/
def insert (less : α → α → m Bool) (x : α) (xs : List α) : m (List α) :=
  insertWithin less x xs.length xs

/-- Inserts elements in order. -/
def insertAll (less : α → α → m Bool) (sorted : List α) : List α → m (List α)
  | [] => pure sorted
  | x :: xs => do insertAll less (← insert less x sorted) xs

/-- The elements in order. -/
def sort (less : α → α → m Bool) (xs : List α) : m (List α) := do
  let (sorted, rest) ← leadingRun less xs
  insertAll less sorted rest

end TemplateLisp.Sorting
