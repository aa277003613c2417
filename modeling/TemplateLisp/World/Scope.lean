import TemplateLisp.World.Key

/-!
# Scopes

A frame and the chain of frames around it, up to the root, are an environment. A name means what the
nearest frame that binds it says. Assigning changes that frame; a name that no frame binds is bound
in the root.
-/

namespace TemplateLisp

/-- Bindings of names, oldest first. -/
abbrev Bindings := List (Value × Value)

namespace Bindings

/-- The value of a name. -/
def get? (name : Symbol) : Bindings → Option Value
  | [] => none
  | (k, v) :: rest => if k = .sym name then some v else get? name rest

/-- Binds a name; a name that is bound keeps its place. -/
def put (name : Symbol) (value : Value) : Bindings → Bindings
  | [] => [(.sym name, value)]
  | (k, v) :: rest => if k = .sym name then (k, value) :: rest else (k, v) :: put name value rest

/-- Bindings of names to values in order. -/
def ofNames (named : List (Symbol × Value)) : Bindings := named.map fun (n, v) => (.sym n, v)

@[simp] theorem get?_put_self (name : Symbol) (value : Value) (b : Bindings) :
    get? name (put name value b) = some value := by
  induction b with
  | nil => simp [put, get?]
  | cons e rest ih =>
    obtain ⟨k, v⟩ := e
    by_cases h : k = .sym name <;> simp [put, get?, h, ih]

theorem get?_put_of_ne {name other : Symbol} (value : Value) (b : Bindings) (h : other ≠ name) :
    get? other (put name value b) = get? other b := by
  induction b with
  | nil => simp [put, get?, h.symm]
  | cons e rest ih =>
    obtain ⟨k, v⟩ := e
    by_cases hk : k = .sym name
    · subst hk; simp [put, get?, h.symm]
    · simp [put, get?, hk, ih]

end Bindings

namespace World

/-- The nearest frame that binds a name, among the next `fuel` frames. -/
def findFrameAt (w : World) (name : Symbol) : (fuel : Nat) → FrameRef → Option FrameRef
  | 0, _ => none
  | n + 1, r =>
    if (Bindings.get? name (w.frame r).vars).isSome then some r
    else
      match (w.frame r).outer with
      | none => none
      | some o => findFrameAt w name n o

/-- The nearest frame that binds a name. -/
def findFrame? (w : World) (env : FrameRef) (name : Symbol) : Option FrameRef :=
  w.findFrameAt name (w.frames.size + 1) env

/-- The last of the next `fuel` frames outwards. -/
def rootAt (w : World) : (fuel : Nat) → FrameRef → FrameRef
  | 0, r => r
  | n + 1, r =>
    match (w.frame r).outer with
    | none => r
    | some o => rootAt w n o

/-- The outermost frame. -/
def root (w : World) (env : FrameRef) : FrameRef := w.rootAt (w.frames.size + 1) env

/-- The value of a name among the next `fuel` frames. -/
def lookupAt (w : World) (name : Symbol) : (fuel : Nat) → FrameRef → Option Value
  | 0, _ => none
  | n + 1, r =>
    match Bindings.get? name (w.frame r).vars with
    | some v => some v
    | none =>
      match (w.frame r).outer with
      | none => none
      | some o => lookupAt w name n o

/-- The value of a name. -/
def lookup? (w : World) (env : FrameRef) (name : Symbol) : Option Value :=
  w.lookupAt name (w.frames.size + 1) env

/-- Binds a name in the given frame. -/
def define (w : World) (env : FrameRef) (name : Symbol) (value : Value) : World :=
  w.updateVars env (Bindings.put name value)

/-- Changes the nearest binding of a name, or binds it in the root. -/
def assign (w : World) (env : FrameRef) (name : Symbol) (value : Value) : World :=
  let target := (w.findFrame? env name).getD (w.root env)
  w.define target name value

/-- The frames from `env` outwards, at most `fuel` of them. -/
def chainAt (w : World) : (fuel : Nat) → FrameRef → List FrameRef
  | 0, _ => []
  | n + 1, r =>
    match (w.frame r).outer with
    | none => [r]
    | some o => r :: chainAt w n o

/-- The frames from `env` to the root. -/
def chain (w : World) (env : FrameRef) : List FrameRef := w.chainAt (w.frames.size + 1) env

end World

end TemplateLisp
