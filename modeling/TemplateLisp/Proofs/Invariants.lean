import TemplateLisp.Proofs.Reserves
import TemplateLisp.Proofs.Transcript

/-!
# Invariants of runs

An `Invariant` is something that holds of worlds and that no change under its rules ends.
`Invariant.Agree` compares two runs from a world in which it holds: they do the same, however they
end it holds again, nothing has been lost, and a result satisfies a condition in the world that is
left. Two runs that differ only in tests that an invariant lets pass agree, and a run that agrees
with itself keeps the invariant (`Invariant.Keeps`), so one pass through everything that runs are
put together from is enough for both.

This module has the rules for putting runs together and what evaluations and built-in functions have
in common. Most conditions on results say that a value may go into an object.
-/

namespace TemplateLisp

/-- Something that holds of a world and that no change under its rules ends. It may keep objects in
reserve, which have to be out of reach where it holds and are then left as they are. It may come
with a condition on the tables of macros that an evaluation sees, by itself and in calls from
built-in functions; those calls have to satisfy it too. -/
structure Invariant extends Rules where
  holds : World → Prop
  reserve : Reserve := .none
  apart : ∀ {w : World}, strict → w.Sound → holds w → reserve.Apart w := by
    intros; exact Reserve.apart_none ‹_›
  step : ∀ {w w' : World}, (strict → w.Sound) → holds w → toRules.Change w w' →
    (strict → reserve.Respects w w') → holds w'
  tables : MacroTableRef → Option MacroTableRef → Prop := fun _ _ => True
  tables_ambient : ∀ {table t}, tables table (some t) → tables t (some t) := by intros; trivial
  tables_new : ∀ {table t}, tables table none → tables t none := by intros; trivial

namespace Invariant

/-! ## Values and changes -/

section
variable (I : Invariant)

/-- The value may go into an object. -/
def Valid (w : World) (v : Value) : Prop := I.strict → I.reserve.Admits w v

/-- The values may go into an object. -/
def ValidAll (w : World) (vs : List Value) : Prop := ∀ v ∈ vs, I.Valid w v

/-- The entries may go into a map. -/
def ValidEntries (w : World) (es : List (Value × Value)) : Prop :=
  ∀ e ∈ es, I.Valid w e.1 ∧ I.Valid w e.2

/-- One change of the world that leaves the reserve alone. -/
structure Step (w w' : World) : Prop where
  change : I.toRules.Change w w'
  respects : I.strict → I.reserve.Respects w w'

/-- Any number of such changes. -/
abbrev Evolves : World → World → Prop := Relation.ReflTransGen I.Step

end

section
variable {I : Invariant} {w w' : World}

theorem Valid.rules {v : Value} (h : I.Valid w v) : I.toRules.Valid w v := fun hs => (h hs).inRange

theorem Valid.mono {v : Value} (h : I.Valid w v) (hw : w.Grows w') : I.Valid w' v :=
  fun hs => (h hs).mono hw

theorem persistent_valid : World.Persistent I.Valid := fun _ _ _ hw h => h.mono hw

theorem valid_of_isPlain {v : Value} (h : v.isPlain = true) : I.Valid w v :=
  fun _ => Reserve.admits_of_isPlain h

theorem valid_nil : I.Valid w .nil := fun _ => trivial

theorem ValidAll.rules {vs : List Value} (h : I.ValidAll w vs) : I.toRules.ValidAll w vs :=
  fun v hv => (h v hv).rules

theorem ValidAll.mono {vs : List Value} (h : I.ValidAll w vs) (hw : w.Grows w') :
    I.ValidAll w' vs := fun v hv => (h v hv).mono hw

theorem validAll_nil : I.ValidAll w [] := by
  intro v hv
  cases hv

theorem validEntries_nil : I.ValidEntries w [] := by
  intro e he
  cases he

theorem ValidAll.cons {v : Value} {vs : List Value} (hv : I.Valid w v) (hvs : I.ValidAll w vs) :
    I.ValidAll w (v :: vs) := by
  intro x hx
  rcases List.mem_cons.1 hx with rfl | hx
  · exact hv
  · exact hvs x hx

theorem ValidAll.head {v : Value} {vs : List Value} (h : I.ValidAll w (v :: vs)) : I.Valid w v :=
  h v List.mem_cons_self

theorem ValidAll.tail {v : Value} {vs : List Value} (h : I.ValidAll w (v :: vs)) :
    I.ValidAll w vs := fun x hx => h x (List.mem_cons_of_mem v hx)

theorem ValidAll.append {us vs : List Value} (hus : I.ValidAll w us) (hvs : I.ValidAll w vs) :
    I.ValidAll w (us ++ vs) := by
  intro x hx
  rcases List.mem_append.1 hx with hx | hx
  · exact hus x hx
  · exact hvs x hx

theorem ValidAll.reverse {vs : List Value} (h : I.ValidAll w vs) : I.ValidAll w vs.reverse :=
  fun x hx => h x (List.mem_reverse.1 hx)

theorem ValidAll.sublist {us vs : List Value} (h : I.ValidAll w vs) (hsub : us.Sublist vs) :
    I.ValidAll w us := fun x hx => h x (hsub.subset hx)

theorem ValidEntries.values {es : List (Value × Value)} (h : I.ValidEntries w es) :
    I.ValidAll w (World.entryValues es) := by
  intro v hv
  obtain ⟨e, he, rfl | rfl⟩ := World.mem_entryValues.1 hv
  · exact (h e he).1
  · exact (h e he).2

theorem ValidEntries.rules {es : List (Value × Value)} (h : I.ValidEntries w es) :
    I.toRules.ValidEntries w es := fun e he => ⟨(h e he).1.rules, (h e he).2.rules⟩

theorem ValidEntries.mono {es : List (Value × Value)} (h : I.ValidEntries w es) (hw : w.Grows w') :
    I.ValidEntries w' es := fun e he => ⟨(h e he).1.mono hw, (h e he).2.mono hw⟩

theorem validEntries_of_values {es : List (Value × Value)}
    (h : I.ValidAll w (World.entryValues es)) : I.ValidEntries w es := fun e he =>
  ⟨h _ (World.mem_entryValues.2 ⟨e, he, .inl rfl⟩), h _ (World.mem_entryValues.2 ⟨e, he, .inr rfl⟩)⟩

namespace Step

theorem cell {c : Cell} (hcar : I.Valid w c.car) (hcdr : I.Valid w c.cdr) :
    I.Step w (w.addCell c).2 :=
  ⟨.cell hcar.rules hcdr.rules, fun hs => .addCell (hcar hs) (hcdr hs)⟩

theorem vector {items : List Value} (h : I.ValidAll w items) : I.Step w (w.addVector items).2 :=
  ⟨.vector h.rules, fun hs => .addVector fun v hv => h v hv hs⟩

theorem tuple {items : List Value} (h : I.ValidAll w items) : I.Step w (w.addTuple items).2 :=
  ⟨.tuple h.rules, fun hs => .addTuple fun v hv => h v hv hs⟩

theorem map {es : List (Value × Value)} (h : I.ValidEntries w es) : I.Step w (w.addMap es).2 :=
  ⟨.map h.rules, fun hs => .addMap fun v hv => h.values v hv hs⟩

theorem generator {items : List Value} (h : I.ValidAll w items) :
    I.Step w (w.addGenerator items).2 where
  change := .generator h.rules
  respects hs := .of_held rfl rfl rfl rfl fun _ v hv =>
    (World.held_addGenerator hv).imp_right fun hnew => h v hnew hs

theorem object {o : HostObject} (h : I.ValidAll w (o.fields.map (·.2))) :
    I.Step w (w.addObject o).2 where
  change := .object h.rules
  respects hs := .of_held rfl rfl rfl rfl fun _ v hv =>
    (World.held_addObject hv).imp_right fun hnew => h v hnew hs

theorem closure {c : Closure} (hparams : I.Valid w c.params) (hbody : I.Valid w c.body)
    (henv : I.Valid w (.env c.env)) : I.Step w (w.addClosure c).2 where
  change := .closure hparams.rules hbody.rules henv.rules
  respects hs := .of_held rfl rfl rfl rfl fun _ v hv => by
    refine (World.held_addClosure hv).imp_right fun hnew => ?_
    rcases World.mem_closureValues.1 hnew with rfl | rfl | rfl
    · exact hparams hs
    · exact hbody hs
    · exact henv hs

theorem frame {vars : Bindings} {outer : FrameRef} (h : I.ValidEntries w vars)
    (houter : I.Valid w (.env outer)) : I.Step w (w.addFrame ⟨vars, some outer⟩).2 where
  change := .frame h.rules houter.rules
  respects hs := .addFrame fun v hv => by
    rcases World.mem_frameValues.1 hv with hv | ⟨o, ho, rfl⟩
    · exact h.values v hv hs
    · cases ho
      exact houter hs

theorem macroTable : I.Step w (w.addMacroTable []).2 :=
  ⟨.macroTable, fun _ => .of_held rfl rfl rfl rfl fun _ _ hv => .inl (World.held_addMacroTable hv)⟩

theorem mark : I.Step w w.takeMark.2 :=
  ⟨.mark, fun _ => .of_held rfl rfl rfl rfl fun _ _ => .inl⟩

theorem setVars {env : FrameRef} {f : Bindings → Bindings} (henv : I.Valid w (.env env))
    (hf : ∀ v ∈ World.entryValues (f (w.frame env).vars),
      v ∈ World.entryValues (w.frame env).vars ∨ I.Valid w v) : I.Step w (w.updateVars env f) where
  change := .setVars fun v hv => (hf v hv).imp_right (·.rules)
  respects hs := .updateVars (henv hs).2 fun v hv => (hf v hv).imp_right (· hs)

theorem define {env : FrameRef} {name : Symbol} {v : Value} (henv : I.Valid w (.env env))
    (hv : I.Valid w v) : I.Step w (w.define env name v) := by
  refine .setVars henv fun x hx => ?_
  rcases World.mem_put_values hx with hold | rfl | rfl
  · exact .inl hold
  · exact .inr fun _ => trivial
  · exact .inr hv

theorem defineMacro {table : MacroTableRef} {name : Symbol} {r : ClosureRef}
    (hr : I.Valid w (.closure r)) : I.Step w (w.defineMacro table name (.closure r)) where
  change := .defineMacro hr.rules
  respects hs := .of_held rfl rfl rfl rfl fun _ x hx => by
    rcases World.held_defineMacro hx with hold | rfl
    · exact .inl hold
    · exact .inr (hr hs)

theorem take {r : GeneratorRef} {v : Value} {vs : List Value} (left : w.generator r = v :: vs) :
    I.Step w (w.setGenerator r vs) :=
  ⟨.take left, fun _ => .of_held rfl rfl rfl rfl fun _ _ hx =>
    .inl (World.held_setGenerator left hx)⟩

theorem fields {r : ObjectRef} {fields : List (String × Value)}
    (h : I.ValidAll w (fields.map (·.2))) : I.Step w (w.setFields r fields) where
  change := .fields h.rules
  respects hs := .of_held rfl rfl rfl rfl fun _ v hv =>
    (World.held_setFields hv).imp_right fun hnew => h v hnew hs

theorem remember {v : Value} (hv : I.Valid w v) : I.Step w (w.remember v) where
  change := .remember hv.rules
  respects hs := .of_held rfl rfl rfl rfl fun _ x hx => by
    rcases World.held_remember hx with hold | rfl
    · exact .inl hold
    · exact .inr (hv hs)

theorem output {text : String} : I.Step w { w with output := text } :=
  ⟨.output, fun _ => .of_held rfl rfl rfl rfl fun _ _ => .inl⟩

theorem setCar {r : CellRef} {v : Value} (allowed : I.mutation) (hr : I.Valid w (.cell r))
    (hv : I.Valid w v) : I.Step w (w.setCar r v) :=
  ⟨.setCar allowed hv.rules, fun hs => .setCar (hr hs) (hv hs)⟩

theorem setCdr {r : CellRef} {v : Value} (allowed : I.mutation) (hr : I.Valid w (.cell r))
    (hv : I.Valid w v) : I.Step w (w.setCdr r v) :=
  ⟨.setCdr allowed hv.rules, fun hs => .setCdr (hr hs) (hv hs)⟩

theorem setVector {r : VectorRef} {items : List Value} (allowed : I.mutation)
    (hr : I.Valid w (.vector r)) (hitems : I.ValidAll w items) : I.Step w (w.setVector r items) :=
  ⟨.setVector allowed hitems.rules, fun hs => .setVector (hr hs) fun v hv => hitems v hv hs⟩

theorem setVariables {env : FrameRef} {es : List (Value × Value)} (henv : I.Valid w (.env env))
    (hes : I.ValidEntries w es) : I.Step w (w.setEntries (.vars env) es) :=
  .setVars (f := fun _ => es) henv fun v hv => .inr (hes.values v hv)

theorem setEntries {r : MapRef} {es : List (Value × Value)} (allowed : I.mutation)
    (hr : I.Valid w (.map r)) (hes : I.ValidEntries w es) : I.Step w (w.setEntries r es) := by
  cases r with
  | own index =>
    exact ⟨.setEntries allowed hes.rules, fun hs => .setEntries (hr hs) fun v hv =>
      hes.values v hv hs⟩
  | vars env => exact .setVariables hr hes

theorem grows (h : I.Step w w') : w.Grows w' := h.change.grows

end Step

theorem Evolves.grows (h : I.Evolves w w') : w.Grows w' := by
  induction h with
  | refl => exact .refl _
  | tail _ step ih => exact ih.trans step.grows

/-- Nothing is kept in reserve, so the host may change the world under the rules too. -/
class Open (I : Invariant) : Prop where
  reserve : I.reserve = .none

section
variable [I.Open]

theorem valid_iff {v : Value} : I.Valid w v ↔ I.toRules.Valid w v :=
  ⟨Valid.rules, fun h hs => Open.reserve (I := I) ▸ Reserve.admits_none_iff.2 (h hs)⟩

theorem validAll_iff {vs : List Value} : I.ValidAll w vs ↔ I.toRules.ValidAll w vs :=
  ⟨ValidAll.rules, fun h v hv => valid_iff.2 (h v hv)⟩

theorem Step.of_change (h : I.toRules.Change w w') : I.Step w w' where
  change := h
  respects hs := by
    rw [Open.reserve (I := I)]
    refine ⟨fun _ => False.elim, fun _ => False.elim, fun _ => False.elim, fun _ => False.elim,
      fun place _ v hv => ?_⟩
    exact (h.held hv).imp_right fun hnew => Reserve.admits_none_iff.2 (hnew hs)

theorem Evolves.of_rules (h : I.toRules.Evolves w w') : I.Evolves w w' :=
  Relation.ReflTransGen.mono (fun _ _ step => Step.of_change step) w w' h

end

end

/-! ## Worlds in which an invariant holds -/

/-- The invariant holds, and under strict rules everything that is referred to exists. -/
structure Good (I : Invariant) (w : World) : Prop where
  sound : I.strict → w.Sound
  holds : I.holds w

section
variable {I : Invariant} {w w' : World}

theorem Good.change (h : I.Good w) (hw : I.Step w w') : I.Good w' where
  sound hstrict := hw.change.sound hstrict (h.sound hstrict)
  holds := I.step h.sound h.holds hw.change hw.respects

theorem Good.evolves (h : I.Good w) (hw : I.Evolves w w') : I.Good w' := by
  induction hw with
  | refl => exact h
  | tail _ step ih => exact ih.change step

theorem Good.apart (h : I.Good w) (hstrict : I.strict) : I.reserve.Apart w :=
  I.apart hstrict (h.sound hstrict) h.holds

/-- What is held outside of the reserve may go into an object. -/
theorem Good.held (h : I.Good w) (place : World.Holder)
    (hplace : I.strict → ¬ I.reserve.Covers place) : I.ValidAll w (w.held place) :=
  fun v hv hstrict => (h.apart hstrict).held place (hplace hstrict) v hv

theorem Good.car (h : I.Good w) {r : CellRef} (hr : I.Valid w (.cell r)) :
    I.Valid w (w.cell r).car :=
  h.held (.cell r) (fun hs => (hr hs).2) _ List.mem_cons_self

theorem Good.cdr (h : I.Good w) {r : CellRef} (hr : I.Valid w (.cell r)) :
    I.Valid w (w.cell r).cdr :=
  h.held (.cell r) (fun hs => (hr hs).2) _ (List.mem_cons_of_mem _ List.mem_cons_self)

theorem Good.vector (h : I.Good w) {r : VectorRef} (hr : I.Valid w (.vector r)) :
    I.ValidAll w (w.vector r) := h.held (.vector r) fun hs => (hr hs).2

theorem Good.tuple (h : I.Good w) (r : TupleRef) : I.ValidAll w (w.tuple r) :=
  h.held (.tuple r) fun _ => id

/-- What a closure refers to: its parameters, its body and the frame it was made in. -/
theorem Good.closure (h : I.Good w) {r : ClosureRef} (hr : I.Valid w (.closure r)) :
    I.Valid w (w.closure r).params ∧ I.Valid w (w.closure r).body ∧
      I.Valid w (.env (w.closure r).env) := by
  have hheld (v : Value) (hv : v ∈ World.closureValues (w.closure r)) : I.Valid w v := fun hs => by
    rw [← World.held_closure (hr hs).1] at hv
    exact (h.apart hs).held (.closure r) (hr hs).2 v hv
  exact ⟨hheld _ (World.mem_closureValues.2 (.inl rfl)),
    hheld _ (World.mem_closureValues.2 (.inr (.inl rfl))),
    hheld _ (World.mem_closureValues.2 (.inr (.inr rfl)))⟩

theorem Good.vars (h : I.Good w) {env : FrameRef} (henv : I.Valid w (.env env)) :
    I.ValidEntries w (w.frame env).vars := by
  have hheld := h.held (.frame env) fun hs => (henv hs).2
  exact validEntries_of_values fun v hv => hheld v (World.mem_frameValues.2 (.inl hv))

/-- Frames stand in frames. -/
theorem Good.outer (h : I.Good w) {env o : FrameRef} (henv : I.Valid w (.env env))
    (ho : (w.frame env).outer = some o) : I.Valid w (.env o) :=
  h.held (.frame env) (fun hs => (henv hs).2) _ (World.mem_frameValues.2 (.inr ⟨o, ho, rfl⟩))

theorem Good.entries (h : I.Good w) {r : MapRef} (hr : I.Valid w (.map r)) :
    I.ValidEntries w (w.entries r) := by
  cases r with
  | own index => exact validEntries_of_values (h.held (.map index) fun hs => (hr hs).2)
  | vars env => exact h.vars hr

/-! ### New objects -/

/-- A new pair is out of the reserve. -/
theorem Good.valid_addCell (h : I.Good w) (c : Cell) :
    I.Valid (w.addCell c).2 (.cell (w.addCell c).1) := by
  refine fun hs => ⟨by simp [World.addCell], fun hr => ?_⟩
  exact Nat.lt_irrefl _ ((h.apart hs).cells _ hr)

theorem Good.valid_addVector (h : I.Good w) (items : List Value) :
    I.Valid (w.addVector items).2 (.vector (w.addVector items).1) := by
  refine fun hs => ⟨by simp [World.addVector], fun hr => ?_⟩
  exact Nat.lt_irrefl _ ((h.apart hs).vectors _ hr)

theorem Good.valid_addMap (h : I.Good w) (es : List (Value × Value)) :
    I.Valid (w.addMap es).2 (.map (w.addMap es).1) := by
  refine fun hs => ⟨by simp [World.addMap], fun hr => ?_⟩
  exact Nat.lt_irrefl _ ((h.apart hs).maps _ hr)

theorem Good.valid_addClosure (h : I.Good w) (c : Closure) :
    I.Valid (w.addClosure c).2 (.closure (w.addClosure c).1) := by
  refine fun hs => ⟨by simp [World.addClosure], fun hr => ?_⟩
  exact Nat.lt_irrefl _ ((h.apart hs).closures _ hr)

theorem Good.valid_addFrame (h : I.Good w) (f : Frame) :
    I.Valid (w.addFrame f).2 (.env (w.addFrame f).1) := by
  refine fun hs => ⟨by simp [World.addFrame], fun hr => ?_⟩
  exact Nat.lt_irrefl _ ((h.apart hs).frames _ hr)

/-- A list is made pair by pair. -/
theorem Good.evolves_addList (h : I.Good w) {items : List Value} {tail : Value}
    (hitems : I.ValidAll w items) (htail : I.Valid w tail) :
    I.Evolves w (w.addList items tail).2 ∧
      I.Valid (w.addList items tail).2 (w.addList items tail).1 := by
  have hreverse := hitems.reverse
  unfold World.addList
  generalize items.reverse = later at hreverse
  clear hitems
  induction later generalizing w tail with
  | nil => exact ⟨.refl, htail⟩
  | cons item rest ih =>
    have hstep : I.Step w (w.addCell ⟨item, tail, none⟩).2 := .cell hreverse.head htail
    obtain ⟨hrest, hvalid⟩ :=
      ih (h.change hstep) (h.valid_addCell _) (hreverse.tail.mono hstep.grows)
    exact ⟨.head hstep hrest, hvalid⟩

end

section
variable (I : Invariant) {α : Type}

/-- What is asked of the end of a run that starts from `w`. -/
def Ends (w : World) (Q : World → α → Prop) : EStateM.Result Stop World α → Prop
  | .ok a w' => w.Grows w' ∧ I.Good w' ∧ Q w' a
  | .error _ w' => w.Grows w' ∧ I.Good w'

/-- From `w`, if it is good, the two runs do the same, and they end as asked. -/
def Agree (w : World) (Q : World → α → Prop) (x y : Run α) : Prop :=
  I.Good w → x.run w = y.run w ∧ I.Ends w Q (x.run w)

/-- From `w`, if it is good, the run ends as asked. -/
abbrev Keeps (w : World) (Q : World → α → Prop) (x : Run α) : Prop := I.Agree w Q x x

/-- However a run ends, nothing has been lost and the invariant holds. -/
theorem Ends.leaves {I : Invariant} {w : World} {Q : World → α → Prop}
    {r : EStateM.Result Stop World α} (h : I.Ends w Q r) :
    w.Grows (Run.leaves r) ∧ I.Good (Run.leaves r) := by
  cases r with
  | ok a w' => exact ⟨h.1, h.2.1⟩
  | error s w' => exact h

/-- A condition on results that asks nothing. -/
abbrev Anything : World → α → Prop := fun _ _ => True

end

namespace Agree

variable {I : Invariant} {α β : Type} {w : World} {P : World → α → Prop} {Q : World → β → Prop}

theorem ends_mono {w₁ w₂ : World} {r : EStateM.Result Stop World α} (h : I.Ends w₂ P r)
    (hw : w₁.Grows w₂) : I.Ends w₁ P r := by
  cases r with
  | ok a w' => exact ⟨hw.trans h.1, h.2⟩
  | error s w' => exact ⟨hw.trans h.1, h.2⟩

/-! ## Putting runs together -/

theorem of_good {x y : Run α} (h : I.Good w → I.Agree w P x y) : I.Agree w P x y :=
  fun hw => h hw hw

theorem pure {a : α} (h : P w a) : I.Keeps w P (Pure.pure a : Run α) :=
  fun hw => ⟨rfl, .refl w, hw, h⟩

theorem throw (s : Stop) : I.Keeps w P (throw s : Run α) := fun hw => ⟨rfl, .refl w, hw⟩

theorem fail (f : Fault) : I.Keeps w P (Run.fail f : Run α) := throw _

theorem crash (f : HostFault) : I.Keeps w P (Run.crash f : Run α) := throw _

theorem bind {x y : Run α} {f g : α → Run β} (hx : I.Agree w P x y)
    (hf : ∀ a w', w.Grows w' → P w' a → I.Agree w' Q (f a) (g a)) :
    I.Agree w Q (x >>= f) (y >>= g) := by
  intro hw
  obtain ⟨heq, hends⟩ := hx hw
  rw [EStateM.run_bind, EStateM.run_bind, ← heq]
  cases hr : x.run w with
  | ok a w' =>
    rw [hr] at hends
    obtain ⟨hgrows, hgood, ha⟩ := hends
    obtain ⟨heq', hends'⟩ := hf a w' hgrows ha hgood
    exact ⟨heq', ends_mono hends' hgrows⟩
  | error s w' =>
    rw [hr] at hends
    exact ⟨rfl, hends⟩

theorem weaken {P' : World → α → Prop} {x y : Run α} (hx : I.Agree w P x y)
    (h : ∀ a w', w.Grows w' → P w' a → P' w' a) : I.Agree w P' x y := by
  intro hw
  obtain ⟨heq, hends⟩ := hx hw
  refine ⟨heq, ?_⟩
  cases hr : x.run w with
  | ok a w' =>
    rw [hr] at hends
    exact ⟨hends.1, hends.2.1, h a w' hends.1 hends.2.2⟩
  | error s w' =>
    rw [hr] at hends
    exact hends

theorem map {x y : Run α} (f : α → β) (hx : I.Agree w P x y)
    (hf : ∀ a w', w.Grows w' → P w' a → Q w' (f a)) : I.Agree w Q (f <$> x) (f <$> y) := by
  rw [map_eq_pure_bind, map_eq_pure_bind]
  exact bind hx fun a w' hw ha => pure (hf a w' hw ha)

theorem ite {c : Prop} [Decidable c] {x x' y y' : Run α} (hx : c → I.Agree w P x x')
    (hy : ¬ c → I.Agree w P y y') : I.Agree w P (if c then x else y) (if c then x' else y') := by
  split
  · exact hx ‹_›
  · exact hy ‹_›

theorem tryCatch {x y : Run α} {h h' : Stop → Run α} (hx : I.Agree w P x y)
    (hh : ∀ s w', w.Grows w' → I.Agree w' P (h s) (h' s)) :
    I.Agree w P (MonadExcept.tryCatch x h) (MonadExcept.tryCatch y h') := by
  intro hw
  obtain ⟨heq, hends⟩ := hx hw
  rw [Run.run_tryCatch, Run.run_tryCatch, ← heq]
  cases hr : x.run w with
  | ok a w' =>
    rw [hr] at hends
    exact ⟨rfl, hends⟩
  | error s w' =>
    rw [hr] at hends
    obtain ⟨heq', hends'⟩ := hh s w' hends.1 hends.2
    exact ⟨heq', ends_mono hends' hends.1⟩

/-- Looking at the world leaves it as it is. -/
theorem look {f : World → α} {g g' : α → Run β} (h : I.Good w → I.Agree w Q (g (f w)) (g' (f w))) :
    I.Agree w Q (Run.look f >>= g) (Run.look f >>= g') := fun hw => h hw hw

theorem looked {f : World → α} (h : I.Good w → P w (f w)) : I.Keeps w P (Run.look f) :=
  fun hw => ⟨rfl, .refl w, hw, h hw⟩

theorem lookOrStop {f : World → Except Stop α} (h : I.Good w → ∀ a, f w = .ok a → P w a) :
    I.Keeps w P (Run.lookOrStop f) := by
  intro hw
  refine ⟨rfl, ?_⟩
  rw [Run.run_lookOrStop]
  cases hf : f w with
  | ok a => exact ⟨.refl w, hw, h hw a hf⟩
  | error s => exact ⟨.refl w, hw⟩

theorem make {f : World → α × World} (hf : I.Evolves w (f w).2) (hP : P (f w).2 (f w).1) :
    I.Keeps w P (Run.make f) := fun hw => ⟨rfl, hf.grows, hw.evolves hf, hP⟩

theorem modify {f : World → World} (hf : I.Good w → I.Evolves w (f w)) :
    I.Keeps w Anything (modify f : Run PUnit) :=
  of_good fun hw => make (f := fun w => (PUnit.unit, f w)) (hf hw) trivial

theorem mapM {R : World → β → Prop} (hR : World.Persistent R)
    {f g : α → Run β} (as : List α)
    (hf : ∀ a ∈ as, ∀ w', w.Grows w' → I.Agree w' R (f a) (g a)) :
    I.Agree w (fun w bs => ∀ b ∈ bs, R w b) (as.mapM f) (as.mapM g) := by
  induction as generalizing w with
  | nil => exact pure (by simp)
  | cons a as ih =>
    rw [List.mapM_cons, List.mapM_cons]
    refine bind (hf a List.mem_cons_self w (.refl w)) fun b w₁ h₁ hb => ?_
    refine bind (ih fun a ha w' hw' => hf a (List.mem_cons_of_mem _ ha) w' (h₁.trans hw'))
      fun bs w₂ h₂ hbs => pure fun x hx => ?_
    rcases List.mem_cons.1 hx with rfl | hx
    · exact hR h₂ hb
    · exact hbs x hx

/-- A stop whose message has to be made first. -/
theorem failAfter {x : Run α} (hx : I.Keeps w P x) (f : α → Fault) :
    I.Keeps w Q (x >>= fun a => (Run.fail (f a) : Run β)) := bind hx fun _ _ _ _ => fail _

/-! ## Texts and types -/

theorem shown (room : Room) (v : Value) : I.Keeps w Anything (Run.shown room v) :=
  lookOrStop fun _ _ _ => trivial

theorem plain (room : Room) (v : Value) : I.Keeps w Anything (Run.plain room v) :=
  lookOrStop fun _ _ _ => trivial

theorem displayed (room : Room) (v : Value) : I.Keeps w Anything (Run.displayed room v) :=
  lookOrStop fun _ _ _ => trivial

theorem typeName (v : Value) : I.Keeps w Anything (Run.typeName v) := looked fun _ => trivial

theorem wrongArgument (function : String) (index : Nat) (expected : String) (v : Value) :
    I.Keeps w P (Run.wrongArgument function index expected v) := failAfter (typeName v) _

theorem improperList (room : Room) (v : Value) : I.Keeps w P (Run.improperList room v) :=
  failAfter (P := Anything) (lookOrStop fun _ _ _ => trivial) _

end Agree

/-! ## Lists -/

section
variable {I : Invariant} {w : World}

theorem Good.spineAt (h : I.Good w) (fuel : Nat) {found : List Cell} {v : Value}
    (hfound : I.ValidAll w (found.map (·.car))) (hv : I.Valid w v) {cells : List Cell}
    {tail : Value} (hspine : w.spineAt fuel found v = some (cells, tail)) :
    I.ValidAll w (cells.map (·.car)) ∧ I.Valid w tail := by
  induction fuel generalizing found v with
  | zero => cases hspine
  | succ n ih =>
    cases v with
    | cell r =>
      refine ih (fun x hx => ?_) (h.cdr hv) hspine
      rcases List.mem_cons.1 hx with rfl | hx
      · exact h.car hv
      · exact hfound x hx
    | _ =>
      cases hspine
      refine ⟨fun x hx => hfound x ?_, hv⟩
      rwa [List.map_reverse, List.mem_reverse] at hx

end

namespace Agree

section
variable {I : Invariant} {w : World}

theorem spine {v : Value} (hv : I.Valid w v) :
    I.Keeps w (fun w s => I.ValidAll w (s.1.map (·.car)) ∧ I.Valid w s.2) (Run.spine v) := by
  refine lookOrStop fun hw s hs => ?_
  cases hspine : w.spine? v with
  | none =>
    rw [hspine] at hs
    cases hs
  | some found =>
    rw [hspine] at hs
    cases hs
    exact hw.spineAt _ (by intro x hx; cases hx) hv hspine

theorem properItems (room : Room) {v : Value} (hv : I.Valid w v) :
    I.Keeps w I.ValidAll (Run.properItems room v) :=
  bind (spine hv) fun _ _ _ hs => ite (fun _ => pure hs.1) fun _ => improperList room v

theorem listWithTail {items : List Value} {tail : Value} (hitems : I.ValidAll w items)
    (htail : I.Valid w tail) : I.Keeps w I.Valid (Run.listWithTail items tail) :=
  of_good fun hw => make (hw.evolves_addList hitems htail).1 (hw.evolves_addList hitems htail).2

theorem list {items : List Value} (hitems : I.ValidAll w items) :
    I.Keeps w I.Valid (Run.list items) := listWithTail hitems valid_nil

theorem cons {car cdr : Value} (hcar : I.Valid w car) (hcdr : I.Valid w cdr) (pos : Option Pos) :
    I.Keeps w I.Valid (Run.cons car cdr pos) :=
  of_good fun hw => make (.single (.cell hcar hcdr)) (hw.valid_addCell _)

theorem vector {items : List Value} (hitems : I.ValidAll w items) :
    I.Keeps w I.Valid (Run.vector items) :=
  of_good fun hw => make (.single (.vector hitems)) (hw.valid_addVector _)

theorem tuple {items : List Value} (hitems : I.ValidAll w items) :
    I.Keeps w I.Valid (Run.tuple items) :=
  make (.single (.tuple hitems)) fun _ => by simp [Reserve.Admits, World.addTuple]

theorem newMap {entries : List (Value × Value)} (hentries : I.ValidEntries w entries) :
    I.Keeps w I.Valid (Run.map entries) :=
  of_good fun hw => make (.single (.map hentries)) (hw.valid_addMap _)

theorem number (n : Number) : I.Keeps w I.Valid (Run.number n) := by
  unfold Run.number
  split
  · exact make (.single .mark) fun _ => trivial
  · exact make (.single .mark) fun _ => trivial
  · exact pure fun _ => trivial

end

end Agree

/-! ## Environments -/

section
variable {I : Invariant} {w : World}

theorem get?_mem {name : Symbol} {b : Bindings} {v : Value} (h : Bindings.get? name b = some v) :
    ∃ e ∈ b, e.2 = v := by
  induction b with
  | nil => cases h
  | cons e rest ih =>
    obtain ⟨k, u⟩ := e
    unfold Bindings.get? at h
    split at h
    · cases h
      exact ⟨_, List.mem_cons_self, rfl⟩
    · obtain ⟨e, he, hv⟩ := ih h
      exact ⟨e, List.mem_cons_of_mem _ he, hv⟩

theorem Good.lookupAt (h : I.Good w) (name : Symbol) (fuel : Nat) {env : FrameRef}
    (henv : I.Valid w (.env env)) {v : Value} (hv : w.lookupAt name fuel env = some v) :
    I.Valid w v := by
  induction fuel generalizing env with
  | zero => cases hv
  | succ n ih =>
    unfold World.lookupAt at hv
    split at hv
    · rename_i u hu
      cases hv
      obtain ⟨e, he, rfl⟩ := get?_mem hu
      exact (h.vars henv e he).2
    · split at hv
      · cases hv
      · exact ih (h.outer henv ‹_›) hv

theorem Good.findFrameAt (h : I.Good w) {name : Symbol} {fuel : Nat} {env r : FrameRef}
    (henv : I.Valid w (.env env)) (hr : w.findFrameAt name fuel env = some r) :
    I.Valid w (.env r) := by
  induction fuel generalizing env with
  | zero => cases hr
  | succ n ih =>
    unfold World.findFrameAt at hr
    split at hr
    · cases hr
      exact henv
    · split at hr
      · cases hr
      · exact ih (h.outer henv ‹_›) hr

theorem Good.rootAt (h : I.Good w) {fuel : Nat} {env : FrameRef} (henv : I.Valid w (.env env)) :
    I.Valid w (.env (w.rootAt fuel env)) := by
  induction fuel generalizing env with
  | zero => exact henv
  | succ n ih =>
    unfold World.rootAt
    split
    · exact henv
    · exact ih (h.outer henv ‹_›)

theorem Good.chainAt (h : I.Good w) {fuel : Nat} {env r : FrameRef} (henv : I.Valid w (.env env))
    (hr : r ∈ w.chainAt fuel env) : I.Valid w (.env r) := by
  induction fuel generalizing env with
  | zero => cases hr
  | succ n ih =>
    unfold World.chainAt at hr
    split at hr
    · cases List.mem_singleton.1 hr
      exact henv
    · rcases List.mem_cons.1 hr with rfl | hr
      · exact henv
      · exact ih (h.outer henv ‹_›) hr

theorem validEntries_put {b : Bindings} {name : Symbol} {v : Value} (hb : I.ValidEntries w b)
    (hv : I.Valid w v) : I.ValidEntries w (Bindings.put name v b) := by
  refine validEntries_of_values fun x hx => ?_
  rcases World.mem_put_values hx with hold | rfl | rfl
  · exact hb.values x hold
  · exact fun _ => trivial
  · exact hv

/-- The values of a frame that is made for arguments are arguments and `nil`. -/
theorem validEntries_named {l : List (Symbol × Value)} (hl : ∀ e ∈ l, I.Valid w e.2) {b : Bindings}
    (hb : I.ValidEntries w b) :
    I.ValidEntries w (l.foldl (fun b (n, v) => Bindings.put n v b) b) := by
  induction l generalizing b with
  | nil => exact hb
  | cons e rest ih =>
    exact ih (fun e he => hl e (List.mem_cons_of_mem _ he))
      (validEntries_put hb (hl e List.mem_cons_self))

theorem valid_namedValues {args : List Value} (hargs : I.ValidAll w args) (p : ParameterList) :
    ∀ e ∈ p.namedValues args, I.Valid w e.2 := by
  intro e he
  rcases List.mem_append.1 (List.of_mem_zip (a := e.1) he).2 with harg | hnil
  · exact hargs _ harg
  · rw [List.eq_of_mem_replicate hnil]
    exact valid_nil

end

namespace Agree

section
variable {I : Invariant} {w : World}

theorem frame {vars : Bindings} {outer : FrameRef} (hvars : I.ValidEntries w vars)
    (houter : I.Valid w (.env outer)) :
    I.Keeps w (fun w r => I.Valid w (.env r)) (Run.make (·.addFrame ⟨vars, some outer⟩)) :=
  of_good fun hw => make (.single (.frame hvars houter)) (hw.valid_addFrame _)

theorem define {env : FrameRef} (henv : I.Valid w (.env env)) (name : Symbol) {v : Value}
    (hv : I.Valid w v) : I.Keeps w Anything (Run.define env name v) :=
  modify fun _ => .single (.define henv hv)

theorem assign {env : FrameRef} (henv : I.Valid w (.env env)) (name : Symbol) {v : Value}
    (hv : I.Valid w v) : I.Keeps w Anything (Run.assign env name v) := by
  refine modify fun hw => .single (.define ?_ hv)
  cases hfound : w.findFrame? env name with
  | none => exact hw.rootAt henv
  | some r => exact hw.findFrameAt henv hfound

theorem lookup {env : FrameRef} (henv : I.Valid w (.env env)) (name : Symbol) :
    I.Keeps w I.Valid (Run.lookup env name) := by
  refine look fun hw => ?_
  cases hfound : w.lookup? env name with
  | some v => exact pure (hw.lookupAt name _ henv hfound)
  | none => exact fail _

theorem parameterList (room : Room) {v : Value} (hv : I.Valid w v) :
    I.Keeps w Anything (ParameterList.ofValue room v) := by
  refine bind (spine hv) fun s w _ _ => ?_
  dsimp only
  split
  · exact pure trivial
  · exact failAfter (shown room _) _
  · exact fail _
  · exact failAfter (shown room v) _
  · exact fail _

theorem bindArguments (p : ParameterList) {args : List Value} (hargs : I.ValidAll w args)
    {outer : FrameRef} (houter : I.Valid w (.env outer)) (name : Option String) :
    I.Keeps w (fun w r => I.Valid w (.env r)) (p.bind args outer name) := by
  unfold ParameterList.bind
  dsimp only
  split
  · exact fail _
  · split
    · exact frame (validEntries_named (valid_namedValues hargs p) validEntries_nil) houter
    · refine bind (list (hargs.sublist (List.drop_sublist _ _))) fun rest w' hw hrest => ?_
      refine frame (validEntries_put ?_ hrest) (houter.mono hw)
      exact (validEntries_named (valid_namedValues hargs p) validEntries_nil).mono hw

end

end Agree

end Invariant

end TemplateLisp
