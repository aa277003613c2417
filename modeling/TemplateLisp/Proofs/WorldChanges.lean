import Mathlib.Data.List.Basic
import Mathlib.Logic.Relation
import TemplateLisp.Eval.Eval

/-!
# What a step may do to the world

Everything that programs and their host do to a world is one of a few changes: an object is made,
the variables of a frame change, a macro is defined, an element is taken from a one-shot sequence,
the host changes the fields of one of its objects or keeps a value for itself, something is written,
or a pair, a vector or a map of its own gets new contents. `Rules.Change` lists them once, with what
is asked of the values that go into an object, and `Rules.Evolves` is any number of them in a row.
What holds of all worlds that a program can lead to is shown by going through this list.

Under strict rules every value that goes into an object refers to an object that exists. Then a
world never gets a reference to nothing (`Rules.Change.sound`), so what is made refers to older
things only.
-/

namespace TemplateLisp

namespace World

section
variable {α : Type} {a : Array α} {x d : α} {f : α → α} {i j : Nat}

theorem getD_of_le (h : a.size ≤ i) : a.getD i d = d := by
  rw [Array.getD_eq_getD_getElem?, Array.getElem?_eq_none h]
  rfl

theorem getD_push : (a.push x).getD i d = if i = a.size then x else a.getD i d := by
  simp only [Array.getD_eq_getD_getElem?, Array.getElem?_push]
  split <;> rfl

theorem getD_modify :
    (a.modify j f).getD i d = if i = j ∧ i < a.size then f (a.getD i d) else a.getD i d := by
  simp only [Array.getD_eq_getD_getElem?, Array.getElem?_modify]
  by_cases hj : j = i
  · subst hj
    by_cases hi : j < a.size <;> simp [hi]
  · simp [hj, Ne.symm hj]

end

/-! ## What exists -/

/-- The value refers to something that exists, if to anything. References to objects of the host are
not looked at: what is read through them holds no matter which there are. -/
def InRange (w : World) : Value → Prop
  | .cell r => r.index < w.cells.size
  | .vector r => r.index < w.vectors.size
  | .tuple r => r.index < w.tuples.size
  | .map (.own index) => index < w.maps.size
  | .map (.vars env) | .env env => env.index < w.frames.size
  | .closure r => r.index < w.closures.size
  | _ => True

instance (w : World) : DecidablePred w.InRange
  | .cell r => inferInstanceAs (Decidable (r.index < w.cells.size))
  | .vector r => inferInstanceAs (Decidable (r.index < w.vectors.size))
  | .tuple r => inferInstanceAs (Decidable (r.index < w.tuples.size))
  | .map (.own index) => inferInstanceAs (Decidable (index < w.maps.size))
  | .map (.vars env) | .env env => inferInstanceAs (Decidable (env.index < w.frames.size))
  | .closure r => inferInstanceAs (Decidable (r.index < w.closures.size))
  | .nil | .null | .bool _ | .num _ | .str _ | .sym _ | .builtin _ | .hostFunction _ _ | .date _
  | .bytes _ | .object _ | .generator _ | .formals _ => .isTrue trivial

/-- What exists in the first world exists in the second. -/
structure Grows (w w' : World) : Prop where
  cells : w.cells.size ≤ w'.cells.size
  vectors : w.vectors.size ≤ w'.vectors.size
  tuples : w.tuples.size ≤ w'.tuples.size
  maps : w.maps.size ≤ w'.maps.size
  closures : w.closures.size ≤ w'.closures.size
  frames : w.frames.size ≤ w'.frames.size

@[refl] theorem Grows.refl (w : World) : w.Grows w := by constructor <;> exact Nat.le_refl _

theorem Grows.trans {w₁ w₂ w₃ : World} (h : w₁.Grows w₂) (h' : w₂.Grows w₃) : w₁.Grows w₃ where
  cells := Nat.le_trans h.cells h'.cells
  vectors := Nat.le_trans h.vectors h'.vectors
  tuples := Nat.le_trans h.tuples h'.tuples
  maps := Nat.le_trans h.maps h'.maps
  closures := Nat.le_trans h.closures h'.closures
  frames := Nat.le_trans h.frames h'.frames

theorem InRange.mono {w w' : World} {v : Value} (h : w.InRange v) (hw : w.Grows w') :
    w'.InRange v := by
  cases v with
  | cell r => exact Nat.lt_of_lt_of_le h hw.cells
  | vector r => exact Nat.lt_of_lt_of_le h hw.vectors
  | tuple r => exact Nat.lt_of_lt_of_le h hw.tuples
  | map r =>
    cases r with
    | own index => exact Nat.lt_of_lt_of_le h hw.maps
    | vars env => exact Nat.lt_of_lt_of_le h hw.frames
  | env r => exact Nat.lt_of_lt_of_le h hw.frames
  | closure r => exact Nat.lt_of_lt_of_le h hw.closures
  | _ => trivial

/-- What is said of something stays true when the world grows. -/
def Persistent {α : Type} (P : World → α → Prop) : Prop :=
  ∀ ⦃w w' : World⦄ ⦃a : α⦄, w.Grows w' → P w a → P w' a

/-! ## What is held -/

/-- The places in a world that hold values. -/
inductive Holder where
  | cell (r : CellRef)
  | vector (r : VectorRef)
  | tuple (r : TupleRef)
  /-- A map of its own. -/
  | map (index : Nat)
  | closure (r : ClosureRef)
  | frame (r : FrameRef)
  | macros (r : MacroTableRef)
  | object (r : ObjectRef)
  | generator (r : GeneratorRef)
  | memory
deriving DecidableEq

/-- The values that a closure holds. -/
def closureValues (c : Closure) : List Value := [c.params, c.body, .env c.env]

/-- The values that a frame holds. -/
def frameValues (f : Frame) : List Value := entryValues f.vars ++ (f.outer.map Value.env).toList

/-- The closures in a table of macros. -/
def macroClosures (table : MacroTable) : List Value :=
  table.filterMap fun m =>
    match m.2 with
    | .closure r => some (.closure r)
    | .builtin _ => none

/-- The values that a place holds. -/
def held (w : World) : Holder → List Value
  | .cell r => [(w.cell r).car, (w.cell r).cdr]
  | .vector r => w.vector r
  | .tuple r => w.tuple r
  | .map index => entryValues (w.entries (.own index))
  | .closure r => (w.closures[r.index]?).elim [] closureValues
  | .frame r => frameValues (w.frame r)
  | .macros r => macroClosures (w.macros r)
  | .object r => (w.object r).fields.map (·.2)
  | .generator r => w.generator r
  | .memory => w.memory

theorem mem_entryValues {entries : List (Value × Value)} {v : Value} :
    v ∈ entryValues entries ↔ ∃ e ∈ entries, v = e.1 ∨ v = e.2 := by
  simp [entryValues]

theorem mem_macroClosures {table : MacroTable} {v : Value} :
    v ∈ macroClosures table ↔ ∃ m ∈ table, ∃ r, m.2 = .closure r ∧ v = .closure r := by
  simp only [macroClosures, List.mem_filterMap]
  constructor
  · rintro ⟨m, hm, hv⟩
    cases ht : m.2 with
    | closure r =>
      rw [ht] at hv
      exact ⟨m, hm, r, ht, (Option.some.inj hv).symm⟩
    | builtin b =>
      rw [ht] at hv
      cases hv
  · rintro ⟨m, hm, r, ht, rfl⟩
    exact ⟨m, hm, by rw [ht]⟩

theorem mem_closureValues {c : Closure} {v : Value} :
    v ∈ closureValues c ↔ v = c.params ∨ v = c.body ∨ v = .env c.env := by
  simp [closureValues]

theorem mem_frameValues {f : Frame} {v : Value} :
    v ∈ frameValues f ↔ v ∈ entryValues f.vars ∨ ∃ o, f.outer = some o ∧ v = .env o := by
  simp [frameValues, eq_comm]

theorem held_closure {w : World} {r : ClosureRef} (hr : r.index < w.closures.size) :
    w.held (.closure r) = closureValues (w.closure r) := by
  rw [held, closure, Array.getD_eq_getD_getElem?, Array.getElem?_eq_getElem hr]
  rfl

/-- Everything that is referred to exists. -/
structure Sound (w : World) : Prop where
  held : ∀ (h : Holder), ∀ v ∈ w.held h, w.InRange v

/-- The places at which there is an object, and what the host keeps for itself. -/
def places (w : World) : List Holder :=
  (List.range w.cells.size).map (fun i => .cell ⟨i⟩) ++
    (List.range w.vectors.size).map (fun i => .vector ⟨i⟩) ++
    (List.range w.tuples.size).map (fun i => .tuple ⟨i⟩) ++
    (List.range w.maps.size).map .map ++
    (List.range w.closures.size).map (fun i => .closure ⟨i⟩) ++
    (List.range w.frames.size).map (fun i => .frame ⟨i⟩) ++
    (List.range w.macroTables.size).map (fun i => .macros ⟨i⟩) ++
    (List.range w.objects.size).map (fun i => .object ⟨i⟩) ++
    (List.range w.generators.size).map (fun i => .generator ⟨i⟩) ++ [.memory]

theorem mem_places {w : World} {place : Holder} : place ∈ w.places ↔ match place with
    | .cell r => r.index < w.cells.size
    | .vector r => r.index < w.vectors.size
    | .tuple r => r.index < w.tuples.size
    | .map index => index < w.maps.size
    | .closure r => r.index < w.closures.size
    | .frame r => r.index < w.frames.size
    | .macros r => r.index < w.macroTables.size
    | .object r => r.index < w.objects.size
    | .generator r => r.index < w.generators.size
    | .memory => True := by
  cases place with
  | memory | map => simp [places]
  | cell r | vector r | tuple r | closure r | frame r | macros r | object r | generator r =>
    obtain ⟨i⟩ := r
    simp [places]

/-- A place without an object reads as an empty one. -/
theorem eq_nil_of_not_mem_places {w : World} {place : Holder}
    (hplace : place ∉ w.places) {v : Value} (hv : v ∈ w.held place) : v = .nil := by
  cases place with
  | memory => exact absurd (mem_places.2 trivial) hplace
  | _ =>
    have hsize := Nat.not_lt.1 fun hr => hplace (mem_places.2 hr)
    simp_all [held, cell, vector, tuple, entries, frame, macros, object, generator,
      entryValues, frameValues,
      macroClosures]

/-- It is enough to look at the places at which there is an object. -/
theorem sound_iff {w : World} : w.Sound ↔ ∀ place ∈ w.places, ∀ v ∈ w.held place, w.InRange v := by
  refine ⟨fun h place _ => h.held place, fun h => ⟨fun place v hv => ?_⟩⟩
  by_cases hplace : place ∈ w.places
  · exact h place hplace v hv
  · rw [eq_nil_of_not_mem_places hplace hv]
    trivial

instance (w : World) : Decidable w.Sound := decidable_of_iff _ sound_iff.symm

/-- The frame that a closure was made in exists. -/
theorem Sound.captured {w : World} (h : w.Sound) {r : ClosureRef} (hr : r.index < w.closures.size) :
    (w.closure r).env.index < w.frames.size := by
  refine h.held (.closure r) (.env (w.closure r).env) ?_
  rw [held_closure hr]
  exact mem_closureValues.2 (.inr (.inr rfl))

/-- The scope around a frame exists. -/
theorem Sound.outer {w : World} (h : w.Sound) {r o : FrameRef} (ho : (w.frame r).outer = some o) :
    o.index < w.frames.size :=
  h.held (.frame r) (.env o) (mem_frameValues.2 (.inr ⟨o, ho, rfl⟩))

end World

/-! ## Changes -/

/-- What is asked of the changes of a world. -/
structure Rules where
  /-- Whether everything that is referred to has to exist. -/
  strict : Prop
  /-- Whether pairs, vectors and maps of their own may get new contents. -/
  mutation : Prop

namespace Rules

variable (R : Rules)

/-- The value may go into an object. -/
def Valid (w : World) (v : Value) : Prop := R.strict → w.InRange v

/-- The values may go into an object. -/
def ValidAll (w : World) (vs : List Value) : Prop := ∀ v ∈ vs, R.Valid w v

/-- The entries may go into a map. -/
def ValidEntries (w : World) (es : List (Value × Value)) : Prop :=
  ∀ e ∈ es, R.Valid w e.1 ∧ R.Valid w e.2

/-- One change of the world. -/
inductive Change (w : World) : World → Prop where
  | cell {c : Cell} (car : R.Valid w c.car) (cdr : R.Valid w c.cdr) : Change w (w.addCell c).2
  | vector {items : List Value} (valid : R.ValidAll w items) : Change w (w.addVector items).2
  | tuple {items : List Value} (valid : R.ValidAll w items) : Change w (w.addTuple items).2
  | map {entries : List (Value × Value)} (valid : R.ValidEntries w entries) :
      Change w (w.addMap entries).2
  | generator {items : List Value} (valid : R.ValidAll w items) : Change w (w.addGenerator items).2
  | object {o : HostObject} (valid : R.ValidAll w (o.fields.map (·.2))) : Change w (w.addObject o).2
  | closure {c : Closure} (params : R.Valid w c.params) (body : R.Valid w c.body)
      (env : R.Valid w (.env c.env)) : Change w (w.addClosure c).2
  /-- A frame is always made inside another one. -/
  | frame {vars : Bindings} {outer : FrameRef} (valid : R.ValidEntries w vars)
      (scope : R.Valid w (.env outer)) : Change w (w.addFrame ⟨vars, some outer⟩).2
  | macroTable : Change w (w.addMacroTable []).2
  | mark : Change w w.takeMark.2
  | setVars {env : FrameRef} {f : Bindings → Bindings}
      (valid : ∀ v ∈ World.entryValues (f (w.frame env).vars),
        v ∈ World.entryValues (w.frame env).vars ∨ R.Valid w v) : Change w (w.updateVars env f)
  | defineMacro {table : MacroTableRef} {name : Symbol} {r : ClosureRef}
      (valid : R.Valid w (.closure r)) : Change w (w.defineMacro table name (.closure r))
  | take {r : GeneratorRef} {v : Value} {vs : List Value} (left : w.generator r = v :: vs) :
      Change w (w.setGenerator r vs)
  | fields {r : ObjectRef} {fields : List (String × Value)}
    (valid : R.ValidAll w (fields.map (·.2))) :
      Change w (w.setFields r fields)
  | remember {v : Value} (valid : R.Valid w v) : Change w (w.remember v)
  | output {text : String} : Change w { w with output := text }
  | setCar {r : CellRef} {v : Value} (allowed : R.mutation) (valid : R.Valid w v) :
      Change w (w.setCar r v)
  | setCdr {r : CellRef} {v : Value} (allowed : R.mutation) (valid : R.Valid w v) :
      Change w (w.setCdr r v)
  | setVector {r : VectorRef} {items : List Value} (allowed : R.mutation)
      (valid : R.ValidAll w items) : Change w (w.setVector r items)
  | setEntries {index : Nat} {entries : List (Value × Value)} (allowed : R.mutation)
      (valid : R.ValidEntries w entries) : Change w (w.setEntries (.own index) entries)

/-- Any number of changes. -/
abbrev Evolves : World → World → Prop := Relation.ReflTransGen R.Change

variable {R} {w w' : World}

theorem Valid.mono {v : Value} (h : R.Valid w v) (hw : w.Grows w') : R.Valid w' v :=
  fun hs => (h hs).mono hw

theorem ValidAll.mono {vs : List Value} (h : R.ValidAll w vs) (hw : w.Grows w') :
    R.ValidAll w' vs := fun v hv => (h v hv).mono hw

theorem ValidEntries.mono {es : List (Value × Value)} (h : R.ValidEntries w es) (hw : w.Grows w') :
    R.ValidEntries w' es := fun e he => ⟨(h e he).1.mono hw, (h e he).2.mono hw⟩

theorem Change.grows (h : R.Change w w') : w.Grows w' := by
  cases h with
  | setVars | defineMacro | take | fields | remember | setCar | setCdr | setVector | setEntries =>
    constructor <;> simp [World.updateVars, World.defineMacro, World.updateMacros,
      World.setGenerator, World.setFields, World.remember, World.setCar, World.setCdr,
      World.setVector, World.setEntries]
  | _ =>
    constructor <;> simp [World.addCell, World.addVector, World.addTuple, World.addMap,
      World.addGenerator, World.addObject, World.addClosure, World.addFrame,
      World.addMacroTable, World.takeMark]

theorem Evolves.grows (h : R.Evolves w w') : w.Grows w' := by
  induction h with
  | refl => exact .refl _
  | tail _ step ih => exact ih.trans step.grows

end Rules

namespace World

/-! ## Reading after a change -/

variable (w : World)

theorem cell_addCell (c : Cell) (r : CellRef) :
    (w.addCell c).2.cell r = if r.index = w.cells.size then c else w.cell r := getD_push

theorem vector_addVector (items : List Value) (r : VectorRef) :
    (w.addVector items).2.vector r = if r.index = w.vectors.size then items else w.vector r :=
  getD_push

theorem tuple_addTuple (items : List Value) (r : TupleRef) :
    (w.addTuple items).2.tuple r = if r.index = w.tuples.size then items else w.tuple r :=
  getD_push

theorem entries_addMap (es : List (Value × Value)) (index : Nat) :
    (w.addMap es).2.entries (.own index) =
      if index = w.maps.size then es else w.entries (.own index) := getD_push

theorem generator_addGenerator (items : List Value) (r : GeneratorRef) :
    (w.addGenerator items).2.generator r =
      if r.index = w.generators.size then items else w.generator r := getD_push

theorem object_addObject (o : HostObject) (r : ObjectRef) :
    (w.addObject o).2.object r = if r.index = w.objects.size then o else w.object r := getD_push

theorem closure_addClosure (c : Closure) (r : ClosureRef) :
    (w.addClosure c).2.closure r = if r.index = w.closures.size then c else w.closure r := getD_push

theorem frame_addFrame (f : Frame) (r : FrameRef) :
    (w.addFrame f).2.frame r = if r.index = w.frames.size then f else w.frame r := getD_push

theorem macros_addMacroTable (t : MacroTable) (r : MacroTableRef) :
    (w.addMacroTable t).2.macros r = if r.index = w.macroTables.size then t else w.macros r :=
  getD_push

theorem frame_updateVars (env : FrameRef) (f : Bindings → Bindings) (r : FrameRef) :
    (w.updateVars env f).frame r =
      if r.index = env.index ∧ r.index < w.frames.size then
        { w.frame r with vars := f (w.frame r).vars }
      else w.frame r := getD_modify

theorem outer_updateVars (env : FrameRef) (f : Bindings → Bindings) (r : FrameRef) :
    ((w.updateVars env f).frame r).outer = (w.frame r).outer := by
  rw [frame_updateVars]
  split <;> rfl

theorem frame_define (env : FrameRef) (name : Symbol) (v : Value) (r : FrameRef) :
    (w.define env name v).frame r =
      if r.index = env.index ∧ r.index < w.frames.size then
        { w.frame r with vars := Bindings.put name v (w.frame r).vars }
      else w.frame r := w.frame_updateVars env _ r

theorem macros_defineMacro (table : MacroTableRef) (name : Symbol) (t : Transformer)
    (r : MacroTableRef) : ∀ m ∈ (w.defineMacro table name t).macros r,
      m ∈ w.macros r ∨ m = (name, t) := by
  intro m hm
  unfold World.defineMacro World.updateMacros World.macros at hm
  rw [getD_modify] at hm
  split at hm
  · split at hm
    · obtain ⟨m', hm', rfl⟩ := List.mem_map.1 hm
      split
      · exact .inr rfl
      · exact .inl hm'
    · rcases List.mem_append.1 hm with hold | hnew
      · exact .inl hold
      · exact .inr (List.mem_singleton.1 hnew)
  · exact .inl hm

theorem generator_setGenerator (r s : GeneratorRef) (items : List Value) :
    (w.setGenerator r items).generator s =
      if s.index = r.index ∧ s.index < w.generators.size then items
        else w.generator s := getD_modify

theorem cell_setCar (r s : CellRef) (v : Value) :
    (w.setCar r v).cell s =
      if s.index = r.index ∧ s.index < w.cells.size then { w.cell s with car := v }
      else w.cell s := getD_modify

theorem cell_setCdr (r s : CellRef) (v : Value) :
    (w.setCdr r v).cell s =
      if s.index = r.index ∧ s.index < w.cells.size then { w.cell s with cdr := v }
      else w.cell s := getD_modify

theorem vector_setVector (r s : VectorRef) (items : List Value) :
    (w.setVector r items).vector s =
      if s.index = r.index ∧ s.index < w.vectors.size then items else w.vector s := getD_modify

theorem entries_setEntries (index index' : Nat) (es : List (Value × Value)) :
    (w.setEntries (.own index) es).entries (.own index') =
      if index' = index ∧ index' < w.maps.size then es else w.entries (.own index') := getD_modify

theorem object_setFields (r s : ObjectRef) (fields : List (String × Value)) :
    (w.setFields r fields).object s =
      if s.index = r.index ∧ s.index < w.objects.size then { w.object s with fields }
        else w.object s :=
  getD_modify

/-! ## What is held after a change -/

theorem mem_put_values {b : Bindings} {name : Symbol} {x v : Value}
    (h : v ∈ entryValues (Bindings.put name x b)) : v ∈ entryValues b ∨ v = .sym name ∨ v = x := by
  induction b with
  | nil => exact .inr (by simpa [Bindings.put, entryValues] using h)
  | cons e rest ih =>
    obtain ⟨k, u⟩ := e
    unfold Bindings.put at h
    split at h
    · subst k
      rcases List.mem_cons.1 h with rfl | h
      · exact .inr (.inl rfl)
      · rcases List.mem_cons.1 h with rfl | h
        · exact .inr (.inr rfl)
        · exact .inl (List.mem_cons_of_mem _ (List.mem_cons_of_mem _ h))
    · rcases List.mem_cons.1 h with rfl | h
      · exact .inl List.mem_cons_self
      · rcases List.mem_cons.1 h with rfl | h
        · exact .inl (List.mem_cons_of_mem _ List.mem_cons_self)
        · exact (ih h).imp_left fun hold => List.mem_cons_of_mem _ (List.mem_cons_of_mem _ hold)

/-- If only one place gets new contents, what it holds comes from the old ones or is new. -/
theorem mem_of_mem_ite {α : Type} (values : α → List Value) {c P : Prop} [Decidable c] {new old : α}
    {v : Value} (hnew : v ∈ values new → v ∈ values old ∨ P)
    (hv : v ∈ values (if c then new else old)) : v ∈ values old ∨ P := by
  split at hv
  · exact hnew hv
  · exact .inl hv

section
variable {w : World} {place : Holder} {v : Value}

theorem held_addCell {c : Cell} (hv : v ∈ (w.addCell c).2.held place) :
    v ∈ w.held place ∨ v = c.car ∨ v = c.cdr := by
  cases place with
  | cell r =>
    rw [held, cell_addCell] at hv
    exact mem_of_mem_ite (fun c : Cell => [c.car, c.cdr]) (fun hv => .inr (List.mem_pair.1 hv)) hv
  | _ => exact .inl hv

theorem held_addVector {items : List Value} (hv : v ∈ (w.addVector items).2.held place) :
    v ∈ w.held place ∨ v ∈ items := by
  cases place with
  | vector r =>
    rw [held, vector_addVector] at hv
    exact mem_of_mem_ite id .inr hv
  | _ => exact .inl hv

theorem held_addTuple {items : List Value} (hv : v ∈ (w.addTuple items).2.held place) :
    v ∈ w.held place ∨ v ∈ items := by
  cases place with
  | tuple r =>
    rw [held, tuple_addTuple] at hv
    exact mem_of_mem_ite id .inr hv
  | _ => exact .inl hv

theorem held_addMap {es : List (Value × Value)} (hv : v ∈ (w.addMap es).2.held place) :
    v ∈ w.held place ∨ v ∈ entryValues es := by
  cases place with
  | map index =>
    rw [held, entries_addMap] at hv
    exact mem_of_mem_ite entryValues .inr hv
  | _ => exact .inl hv

theorem held_addGenerator {items : List Value} (hv : v ∈ (w.addGenerator items).2.held place) :
    v ∈ w.held place ∨ v ∈ items := by
  cases place with
  | generator r =>
    rw [held, generator_addGenerator] at hv
    exact mem_of_mem_ite id .inr hv
  | _ => exact .inl hv

theorem held_addObject {o : HostObject} (hv : v ∈ (w.addObject o).2.held place) :
    v ∈ w.held place ∨ v ∈ o.fields.map (·.2) := by
  cases place with
  | object r =>
    rw [held, object_addObject] at hv
    exact mem_of_mem_ite (fun o : HostObject => o.fields.map (·.2)) .inr hv
  | _ => exact .inl hv

theorem held_addClosure {c : Closure} (hv : v ∈ (w.addClosure c).2.held place) :
    v ∈ w.held place ∨ v ∈ closureValues c := by
  cases place with
  | closure r =>
    have hfound : (w.addClosure c).2.closures[r.index]? =
        if r.index = w.closures.size then some c else w.closures[r.index]? := Array.getElem?_push
    rw [held, hfound] at hv
    exact mem_of_mem_ite (Option.elim · [] closureValues) .inr hv
  | _ => exact .inl hv

theorem held_addFrame {f : Frame} (hv : v ∈ (w.addFrame f).2.held place) :
    v ∈ w.held place ∨ v ∈ frameValues f := by
  cases place with
  | frame r =>
    rw [held, frame_addFrame] at hv
    exact mem_of_mem_ite frameValues .inr hv
  | _ => exact .inl hv

theorem held_addMacroTable (hv : v ∈ (w.addMacroTable []).2.held place) : v ∈ w.held place := by
  cases place with
  | macros r =>
    rw [held, macros_addMacroTable] at hv
    exact (mem_of_mem_ite (P := False) macroClosures
      (fun hv => absurd hv (by simp [macroClosures])) hv).resolve_right id
  | _ => exact hv

theorem held_updateVars {env : FrameRef} {f : Bindings → Bindings} {P : Prop}
    (hf : v ∈ entryValues (f (w.frame env).vars) → v ∈ entryValues (w.frame env).vars ∨ P)
    (hv : v ∈ (w.updateVars env f).held place) : v ∈ w.held place ∨ P := by
  cases place with
  | frame r =>
    rw [held, frame_updateVars] at hv
    split at hv
    · rename_i hr
      obtain rfl : r = env := congrArg FrameRef.mk hr.1
      rcases mem_frameValues.1 hv with hvars | houter
      · exact (hf hvars).imp_left fun hold => mem_frameValues.2 (.inl hold)
      · exact .inl (mem_frameValues.2 (.inr houter))
    · exact .inl hv
  | _ => exact .inl hv

theorem held_defineMacro {table : MacroTableRef} {name : Symbol} {c : ClosureRef}
    (hv : v ∈ (w.defineMacro table name (.closure c)).held place) :
    v ∈ w.held place ∨ v = .closure c := by
  cases place with
  | macros r =>
    obtain ⟨m, hm, s, hs, rfl⟩ := mem_macroClosures.1 hv
    rcases macros_defineMacro w table name (.closure c) r m hm with hold | rfl
    · exact .inl (mem_macroClosures.2 ⟨m, hold, s, hs, rfl⟩)
    · cases hs
      exact .inr rfl
  | _ => exact .inl hv

theorem held_setGenerator {s : GeneratorRef} {x : Value} {xs : List Value}
    (left : w.generator s = x :: xs) (hv : v ∈ (w.setGenerator s xs).held place) :
    v ∈ w.held place := by
  cases place with
  | generator r =>
    rw [held, generator_setGenerator] at hv
    split at hv
    · rename_i hr
      obtain rfl : r = s := by
        cases r
        cases s
        exact congrArg GeneratorRef.mk hr.1
      rw [held, left]
      exact List.mem_cons_of_mem x hv
    · exact hv
  | _ => exact hv

theorem held_setCar {s : CellRef} {x : Value} (hv : v ∈ (w.setCar s x).held place) :
    v ∈ w.held place ∨ v = x := by
  cases place with
  | cell r =>
    rw [held, cell_setCar] at hv
    refine mem_of_mem_ite (fun c : Cell => [c.car, c.cdr]) (fun hv => ?_) hv
    rcases List.mem_pair.1 hv with rfl | rfl
    · exact .inr rfl
    · exact .inl (List.mem_pair.2 (.inr rfl))
  | _ => exact .inl hv

theorem held_setCdr {s : CellRef} {x : Value} (hv : v ∈ (w.setCdr s x).held place) :
    v ∈ w.held place ∨ v = x := by
  cases place with
  | cell r =>
    rw [held, cell_setCdr] at hv
    refine mem_of_mem_ite (fun c : Cell => [c.car, c.cdr]) (fun hv => ?_) hv
    rcases List.mem_pair.1 hv with rfl | rfl
    · exact .inl (List.mem_pair.2 (.inl rfl))
    · exact .inr rfl
  | _ => exact .inl hv

theorem held_setVector {s : VectorRef} {items : List Value}
    (hv : v ∈ (w.setVector s items).held place) : v ∈ w.held place ∨ v ∈ items := by
  cases place with
  | vector r =>
    rw [held, vector_setVector] at hv
    exact mem_of_mem_ite id .inr hv
  | _ => exact .inl hv

theorem held_setEntries {index : Nat} {es : List (Value × Value)}
    (hv : v ∈ (w.setEntries (.own index) es).held place) : v ∈ w.held place ∨
    v ∈ entryValues es := by
  cases place with
  | map index' =>
    rw [held, entries_setEntries] at hv
    exact mem_of_mem_ite entryValues .inr hv
  | _ => exact .inl hv

theorem held_setFields {s : ObjectRef} {fields : List (String × Value)}
    (hv : v ∈ (w.setFields s fields).held place) : v ∈ w.held place ∨ v ∈ fields.map (·.2) := by
  cases place with
  | object r =>
    rw [held, object_setFields] at hv
    exact mem_of_mem_ite (fun o : HostObject => o.fields.map (·.2)) .inr hv
  | _ => exact .inl hv

theorem held_remember {x : Value} (hv : v ∈ (w.remember x).held place) :
    v ∈ w.held place ∨ v = x := by
  cases place with
  | memory => exact (List.mem_append.1 hv).imp_right List.mem_singleton.1
  | _ => exact .inl hv

end

end World

namespace Rules

variable {R : Rules} {w w' : World}

theorem ValidEntries.values {es : List (Value × Value)} (h : R.ValidEntries w es) :
    R.ValidAll w (World.entryValues es) := by
  intro v hv
  obtain ⟨e, he, rfl | rfl⟩ := World.mem_entryValues.1 hv
  · exact (h e he).1
  · exact (h e he).2

theorem mem_values_frame {vars : Bindings} {outer : FrameRef} {v : Value}
    (hvars : R.ValidEntries w vars) (houter : R.Valid w (.env outer))
    (hv : v ∈ World.frameValues ⟨vars, some outer⟩) : R.Valid w v := by
  rcases World.mem_frameValues.1 hv with hv | ⟨o, ho, rfl⟩
  · exact hvars.values v hv
  · cases ho
    exact houter

/-- What a place holds after a change it held before, or it may go into an object. -/
theorem Change.held (h : R.Change w w') {place : World.Holder} {v : Value}
    (hv : v ∈ w'.held place) : v ∈ w.held place ∨ R.Valid w v := by
  cases h with
  | cell car cdr =>
    refine (World.held_addCell hv).imp_right ?_
    rintro (rfl | rfl)
    · exact car
    · exact cdr
  | vector valid => exact (World.held_addVector hv).imp_right (valid v)
  | tuple valid => exact (World.held_addTuple hv).imp_right (valid v)
  | map valid => exact (World.held_addMap hv).imp_right (valid.values v)
  | generator valid => exact (World.held_addGenerator hv).imp_right (valid v)
  | object valid => exact (World.held_addObject hv).imp_right (valid v)
  | closure params body env =>
    refine (World.held_addClosure hv).imp_right fun hnew => ?_
    rcases World.mem_closureValues.1 hnew with rfl | rfl | rfl
    · exact params
    · exact body
    · exact env
  | frame valid scope => exact (World.held_addFrame hv).imp_right (mem_values_frame valid scope)
  | macroTable => exact .inl (World.held_addMacroTable hv)
  | setVars valid => exact World.held_updateVars (valid v) hv
  | defineMacro valid =>
    rcases World.held_defineMacro hv with hold | rfl
    · exact .inl hold
    · exact .inr valid
  | take left => exact .inl (World.held_setGenerator left hv)
  | fields valid => exact (World.held_setFields hv).imp_right (valid v)
  | remember valid =>
    rcases World.held_remember hv with hold | rfl
    · exact .inl hold
    · exact .inr valid
  | mark | output => exact .inl hv
  | setCar allowed valid =>
    rcases World.held_setCar hv with hold | rfl
    · exact .inl hold
    · exact .inr valid
  | setCdr allowed valid =>
    rcases World.held_setCdr hv with hold | rfl
    · exact .inl hold
    · exact .inr valid
  | setVector allowed valid => exact (World.held_setVector hv).imp_right (valid v)
  | setEntries allowed valid => exact (World.held_setEntries hv).imp_right (valid.values v)

/-- The scope around a frame is that of its making: no change does anything to it, and the only new
frames are made inside of others. -/
theorem Change.outer (h : R.Change w w') :
    (w'.frames.size = w.frames.size ∧ ∀ r, (w'.frame r).outer = (w.frame r).outer) ∨
      w'.frames.size = w.frames.size + 1 ∧ ∃ o, R.Valid w (.env o) ∧
        ∀ r, (w'.frame r).outer = if r.index = w.frames.size then some o
          else (w.frame r).outer := by
  cases h with
  | @frame vars o valid scope =>
    refine .inr ⟨by simp [World.addFrame], o, scope, fun r => ?_⟩
    rw [World.frame_addFrame]
    split <;> rfl
  | setVars => exact .inl ⟨by simp [World.updateVars], World.outer_updateVars _ _ _⟩
  | _ => exact .inl ⟨rfl, fun _ => rfl⟩

/-- Under strict rules everything that is referred to exists, after a change as before. -/
theorem Change.sound (h : R.Change w w') (hstrict : R.strict) (hw : w.Sound) : w'.Sound where
  held place v hv := by
    rcases h.held hv with hold | hvalid
    · exact (hw.held place v hold).mono h.grows
    · exact (hvalid hstrict).mono h.grows

/-- A variable gets a value. -/
theorem Change.define {env : FrameRef} {name : Symbol} {x : Value} (hx : R.Valid w x) :
    R.Change w (w.define env name x) := by
  refine .setVars fun v hv => ?_
  rcases World.mem_put_values hv with hold | rfl | rfl
  · exact .inl hold
  · exact .inr fun _ => trivial
  · exact .inr hx

/-! ## Making values -/

theorem validAll_nil : R.ValidAll w [] := by
  intro v hv
  cases hv

theorem ValidAll.cons {v : Value} {vs : List Value} (hv : R.Valid w v) (hvs : R.ValidAll w vs) :
    R.ValidAll w (v :: vs) := by
  intro x hx
  rcases List.mem_cons.1 hx with rfl | hx
  · exact hv
  · exact hvs x hx

theorem ValidAll.reverse {vs : List Value} (h : R.ValidAll w vs) : R.ValidAll w vs.reverse :=
  fun x hx => h x (List.mem_reverse.1 hx)

theorem valid_addCell (c : Cell) : R.Valid (w.addCell c).2 (.cell (w.addCell c).1) :=
  fun _ => by simp [World.InRange, World.addCell]

end Rules

end TemplateLisp
