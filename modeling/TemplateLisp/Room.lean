/-!
# Room for nesting

Reading, evaluating, printing and comparing go down into nested data, and the stack bounds how far.
A `Room` says how many levels are left, or that there is no bound.
-/

namespace TemplateLisp

/-- How many more levels of nesting may be entered; `none` is without bound. -/
structure Room where
  left : Option Nat
deriving DecidableEq, Inhabited, Repr

namespace Room

/-- Room without bound. -/
def unbounded : Room := ⟨none⟩

/-- The room inside one more level, if there is any. -/
def enter? : Room → Option Room
  | ⟨none⟩ => some ⟨none⟩
  | ⟨some 0⟩ => none
  | ⟨some (n + 1)⟩ => some ⟨some n⟩

/-- The number of levels for a walk through data, which needs at most `enough` if it ends at all. -/
def levels (r : Room) (enough : Nat) : Nat := r.left.getD enough

@[simp] theorem enter?_unbounded : unbounded.enter? = some unbounded := rfl

end Room

end TemplateLisp
