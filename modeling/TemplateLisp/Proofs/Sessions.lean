import TemplateLisp.Proofs.InvariantEvaluation
import TemplateLisp.Proofs.Rendering

/-!
# Sessions

A session is what happens to the world of one interpreter: a host makes the interpreter, makes data
of its own, and asks the interpreter to bind values, to load texts, to render programs and to
evaluate texts, in any order and whatever comes of it. `Session` has the worlds that a session can
come to.

An invariant of runs that holds at the start holds in all of them (`Session.good`), and requests
under watches that agree do the same (`Invariant.Watches.respond`).
-/

namespace TemplateLisp

/-- A run on an output of its own can be cut short if what follows lets the end of the
steps pass. -/
theorem Run.Below.captured {α β : Type} {x y : Run α} (h : Run.Below x y)
    {f : String × Except Stop α → Run β} (hf : ∀ text, f (text, .error .endless) = throw .endless) :
    Run.Below (Run.captured x >>= f) (Run.captured y >>= f) := by
  intro w
  rw [EStateM.run_bind, EStateM.run_bind, Run.run_captured, Run.run_captured]
  rcases h { w with output := "" } with ⟨w', hx⟩ | hx
  · rw [hx]
    exact .inl ⟨_, congrArg (·.run { w' with output := w.output }) (hf w'.output)⟩
  · exact .inr (by rw [hx])

/-! ## Requests -/

/-- What a host asks of an interpreter. -/
inductive Request where
  | set (name : String) (v : Value)
  | setFunction (name : String) (f : HostFunctionRef)
  | load (limits : Limits) (source : String)
  | render (limits : Limits) (program : String)
  | evaluate (limits : Limits) (source : String)

/-- A value that is bound exists. -/
def Request.Valid (w : World) : Request → Prop
  | .set _ v => w.InRange v
  | _ => True

section
variable [Host]

namespace Interpreter

/-- What is done for a request. -/
def respond (i : Interpreter) : Request → Run Unit
  | .set name v => i.set name v
  | .setFunction name f => i.setFunction name f
  | .load limits source => i.load limits source
  | .render limits program => discard <| i.render limits program
  | .evaluate limits source => discard <| i.evaluate limits source

/-- What is done for a request, with another way of evaluating forms. -/
def respondBy (i : Interpreter) (evalForms : Limits → List Value → Run Value) : Request → Run Unit
  | .set name v => i.set name v
  | .setFunction name f => i.setFunction name f
  | .load limits source => do
    let forms ← Run.read limits.room source
    discard <| Run.orStackOverflow (evalForms limits forms)
  | .render limits program => discard <| do
    match TemplateLisp.read limits.room program with
    | .error f =>
      match Run.ofReadFailure f with
      | .error e => return (⟨"", some e⟩ : Rendering)
      | s => throw s
    | .ok forms =>
      let values ← Run.make fun w => w.loadItems [] forms
      let (output, outcome) ← Run.captured (evalForms limits values)
      match outcome with
      | .ok _ => return ⟨output, none⟩
      | .error (.returned _) => return ⟨output, none⟩
      | .error (.error e) => return ⟨output, some e⟩
      | .error .tooDeep => return ⟨output, some ⟨.tooDeep, none⟩⟩
      | .error s => throw s
  | .evaluate limits source => discard <| do
    let forms ← Run.read limits.room source
    tryCatch (Run.orStackOverflow (evalForms limits forms)) fun
      | .returned v => pure v
      | s => throw s

theorem respondBy_evalForms (i : Interpreter) (r : Request) :
    i.respondBy (fun limits => i.evalForms limits .nil) r = i.respond r := by
  cases r <;> rfl

end Interpreter

namespace Watch

/-- Evaluates forms in order under watch and gives the value of the last one. -/
def evalForms (W : Watch) (i : Interpreter) (limits : Limits) (last : Value) :
    List Value → Run Value
  | [] => pure last
  | v :: vs => do W.evalForms i limits (← W.evaluate limits.fuel (i.site limits) v) vs

/-- What is done for a request under watch. -/
def respond (W : Watch) (i : Interpreter) : Request → Run Unit :=
  i.respondBy fun limits => W.evalForms i limits .nil

theorem evalForms_idle (i : Interpreter) (limits : Limits) (last : Value) (vs : List Value) :
    idle.evalForms i limits last vs = i.evalForms limits last vs := by
  induction vs generalizing last with
  | nil => rfl
  | cons v vs ih => simp only [evalForms, Interpreter.evalForms, evaluate_idle, ih]

/-- Under a watch that does nothing, requests are as they are. -/
theorem respond_idle (i : Interpreter) (r : Request) : idle.respond i r = i.respond r := by
  rw [← i.respondBy_evalForms]
  exact congrArg (i.respondBy · r) (funext₂ fun limits vs => evalForms_idle i limits .nil vs)

end Watch

omit [Host] in
/-- A request is cut short where the evaluation of forms is. -/
theorem Interpreter.respondBy_below (i : Interpreter)
    {evalForms evalForms' : Limits → List Value → Run Value}
    (h : ∀ limits vs, Run.Below (evalForms limits vs) (evalForms' limits vs)) (r : Request) :
    Run.Below (i.respondBy evalForms r) (i.respondBy evalForms' r) := by
  cases r with
  | set name v | setFunction name f => exact .refl _
  | load limits source =>
    exact .bind (.refl _) fun forms => .map _ (.tryCatch (h limits forms) rfl)
  | render limits program =>
    refine .map _ ?_
    split
    · exact .refl _
    · exact .bind (.refl _) fun values => .captured (h limits values) fun _ => rfl
  | evaluate limits source =>
    exact .map _ (.bind (.refl _) fun forms => .tryCatch (.tryCatch (h limits forms) rfl) rfl)

theorem Watch.Below.evalForms {W W' : Watch} (h : W.Below W') (i : Interpreter) (limits : Limits)
    (last : Value) (vs : List Value) :
    Run.Below (W.evalForms i limits last vs) (W'.evalForms i limits last vs) := by
  induction vs generalizing last with
  | nil => exact .refl _
  | cons v vs ih => exact .bind (h.evaluate _ _ v) fun x => ih x

theorem Watch.Below.respond {W W' : Watch} (h : W.Below W') (i : Interpreter) (r : Request) :
    Run.Below (W.respond i r) (W'.respond i r) :=
  i.respondBy_below (fun limits vs => h.evalForms i limits .nil vs) r

end

/-! ## Reading -/

namespace Rules

variable {R : Rules} {w : World}

/-- A list with positions is made pair by pair. -/
theorem evolves_closeList {found : List (Option Pos × Value)} {tail : Value}
    (hfound : ∀ p ∈ found, R.Valid w p.2) (htail : R.Valid w tail) :
    R.Evolves w (w.closeList found tail).2 ∧
      R.Valid (w.closeList found tail).2 (w.closeList found tail).1 := by
  induction found generalizing w tail with
  | nil => exact ⟨.refl, htail⟩
  | cons p rest ih =>
    obtain ⟨pos, item⟩ := p
    have hstep : R.Change w (w.addCell ⟨item, tail, pos⟩).2 :=
      .cell (hfound _ List.mem_cons_self) htail
    obtain ⟨hrest, hvalid⟩ := ih (w := (w.addCell ⟨item, tail, pos⟩).2)
      (fun p hp => (hfound p (List.mem_cons_of_mem _ hp)).mono hstep.grows) (valid_addCell _)
    exact ⟨.head hstep hrest, hvalid⟩

end Rules

namespace World

/-- What is not a pair ends a list. -/
theorem loadTail_of_not_pair (w : World) (found : List (Option Pos × Value)) {d : Datum}
    (hd : ∀ pos car cdr, d ≠ .cons pos car cdr) :
    w.loadTail found d = (w.load d).2.closeList found (w.load d).1 := by
  cases d with
  | cons pos car cdr => exact absurd rfl (hd pos car cdr)
  | _ => rfl

end World

namespace Rules

variable {R : Rules}

mutual
/-- A tree is put into the heap object by object. -/
theorem evolves_load (w : World) (d : Datum) :
    R.Evolves w (w.load d).2 ∧ R.Valid (w.load d).2 (w.load d).1 := by
  match d with
  | .cons pos car cdr =>
    obtain ⟨hcar, hfirst⟩ := evolves_load w car
    have hfound : ∀ p ∈ [(pos, (w.load car).1)], R.Valid (w.load car).2 p.2 := by
      intro p hp
      rw [List.mem_singleton.1 hp]
      exact hfirst
    obtain ⟨hcdr, hlist⟩ := evolves_loadTail (w.load car).2 hfound cdr
    exact ⟨hcar.trans hcdr, hlist⟩
  | .vector items =>
    obtain ⟨hitems, hvalid⟩ := evolves_loadItems w validAll_nil items
    exact ⟨hitems.tail (.vector hvalid), fun _ => by
      simp [World.load, World.InRange, World.addVector]⟩
  | .tuple items =>
    obtain ⟨hitems, hvalid⟩ := evolves_loadItems w validAll_nil items
    exact ⟨hitems.tail (.tuple hvalid), fun _ => by
      simp [World.load, World.InRange, World.addTuple]⟩
  | .map entries =>
    have hnone : R.ValidEntries w [] := by
      intro e he
      cases he
    obtain ⟨hentries, hvalid⟩ := evolves_loadEntries w hnone entries
    exact ⟨hentries.tail (.map hvalid), fun _ => by simp [World.load, World.InRange, World.addMap]⟩
  | .nil | .null | .bool _ | .num _ | .str _ | .wide _ | .sym _ | .leaf _ _ =>
    exact ⟨.refl, fun _ => trivial⟩
termination_by (sizeOf d, 0)

theorem evolves_loadTail (w : World) {found : List (Option Pos × Value)}
    (hfound : ∀ p ∈ found, R.Valid w p.2) (d : Datum) :
    R.Evolves w (w.loadTail found d).2 ∧
      R.Valid (w.loadTail found d).2 (w.loadTail found d).1 := by
  by_cases hd : ∃ pos car cdr, d = .cons pos car cdr
  · obtain ⟨pos, car, cdr, rfl⟩ := hd
    obtain ⟨hcar, hfirst⟩ := evolves_load w car
    have hfound' : ∀ p ∈ (pos, (w.load car).1) :: found, R.Valid (w.load car).2 p.2 := by
      intro p hp
      rcases List.mem_cons.1 hp with rfl | hp
      · exact hfirst
      · exact (hfound p hp).mono (Evolves.grows hcar)
    obtain ⟨hcdr, hlist⟩ := evolves_loadTail (w.load car).2 hfound' cdr
    exact ⟨hcar.trans hcdr, hlist⟩
  · obtain ⟨hload, hlast⟩ := evolves_load w d
    rw [w.loadTail_of_not_pair found fun pos car cdr h => hd ⟨pos, car, cdr, h⟩]
    obtain ⟨hlist, hvalid⟩ := evolves_closeList
      (fun p hp => (hfound p hp).mono (Evolves.grows hload)) hlast
    exact ⟨hload.trans hlist, hvalid⟩
termination_by (sizeOf d, 1)

theorem evolves_loadItems (w : World) {found : List Value} (hfound : R.ValidAll w found)
    (ds : List Datum) : R.Evolves w (w.loadItems found ds).2 ∧
      R.ValidAll (w.loadItems found ds).2 (w.loadItems found ds).1 := by
  match ds with
  | [] => exact ⟨.refl, hfound.reverse⟩
  | d :: ds =>
    obtain ⟨hd, hv⟩ := evolves_load w d
    obtain ⟨hds, hvs⟩ :=
      evolves_loadItems (w.load d).2 (.cons hv (hfound.mono (Evolves.grows hd))) ds
    exact ⟨hd.trans hds, hvs⟩
termination_by (sizeOf ds, 0)

theorem evolves_loadEntries (w : World) {found : List (Value × Value)}
    (hfound : R.ValidEntries w found) (es : List (Datum × Datum)) :
    R.Evolves w (w.loadEntries found es).2 ∧
      R.ValidEntries (w.loadEntries found es).2 (w.loadEntries found es).1 := by
  match es with
  | [] => exact ⟨.refl, fun e he => hfound e (List.mem_reverse.1 he)⟩
  | (k, d) :: es =>
    obtain ⟨hk, hkey⟩ := evolves_load w k
    obtain ⟨hd, hvalue⟩ := evolves_load (w.load k).2 d
    have hentry : R.Evolves w (w.loadEntry (k, d)).2 := hk.trans hd
    have hfound' : R.ValidEntries (w.loadEntry (k, d)).2 ((w.loadEntry (k, d)).1 :: found) := by
      intro x hx
      rcases List.mem_cons.1 hx with rfl | hx
      · exact ⟨hkey.mono (Evolves.grows hd), hvalue⟩
      · exact hfound.mono (Evolves.grows hentry) x hx
    obtain ⟨hes, hall⟩ := evolves_loadEntries (w.loadEntry (k, d)).2 hfound' es
    exact ⟨hentry.trans hes, hall⟩
termination_by (sizeOf es, 0)
end

end Rules

/-! ## Invariants through requests -/

namespace Invariant

variable {I : Invariant} {w : World}

namespace Agree

theorem loadedForms [I.Open] (ds : List Datum) :
    I.Keeps w I.ValidAll (Run.make fun w => w.loadItems [] ds) := by
  obtain ⟨hload, hvalid⟩ := Rules.evolves_loadItems w (R := I.toRules) Rules.validAll_nil ds
  exact make (.of_rules hload) (validAll_iff.2 hvalid)

theorem readForms [I.Open] (room : Room) (source : String) :
    I.Keeps w I.ValidAll (Run.read room source) := by
  unfold Run.read
  split
  · exact loadedForms _
  · exact throw _

theorem orStackOverflow {α : Type} {P : World → α → Prop} {x y : Run α} (hx : I.Agree w P x y) :
    I.Agree w P (Run.orStackOverflow x) (Run.orStackOverflow y) := by
  refine tryCatch hx fun s w' _ => ?_
  split
  · exact fail _
  · exact throw _

/-- Something on an output of its own leaves the output as it was. -/
theorem captured {α : Type} {P : World → α → Prop} {x y : Run α}
    (hx : I.Agree { w with output := "" } P x y) :
    I.Agree w Anything (Run.captured x) (Run.captured y) := by
  intro hw
  have hstart : I.Step w { w with output := "" } := .output
  obtain ⟨heq, hends⟩ := hx (hw.change hstart)
  rw [Run.run_captured, Run.run_captured, ← heq]
  cases hr : x.run { w with output := "" } with
  | ok a w' =>
    rw [hr] at hends
    have hend : I.Step w' { w' with output := w.output } := .output
    exact ⟨rfl, (hstart.grows.trans hends.1).trans hend.grows, hends.2.1.change hend, trivial⟩
  | error s w' =>
    rw [hr] at hends
    have hend : I.Step w' { w' with output := w.output } := .output
    exact ⟨rfl, (hstart.grows.trans hends.1).trans hend.grows, hends.2.change hend, trivial⟩

end Agree

open Agree

section
variable [Host] [I.AllowsHost]

theorem Watches.evalForms {W W' : Watch} (h : I.Watches W W') (i : Interpreter) (limits : Limits)
    (henv : I.Valid w (.env i.env)) (htables : I.tables i.macros (some i.macros)) {last : Value}
    (hlast : I.Valid w last) {vs : List Value} (hvs : I.ValidAll w vs) :
    I.Agree w I.Valid (W.evalForms i limits last vs) (W'.evalForms i limits last vs) := by
  induction vs generalizing w last with
  | nil => exact pure hlast
  | cons v vs ih =>
    have hsite : I.ValidSite w (i.site limits) := ⟨henv, htables⟩
    refine bind (h.evaluate limits.fuel hsite hvs.head) fun x w' hw hx => ?_
    exact ih (henv.mono hw) hx (hvs.tail.mono hw)

variable [I.Open]

/-- Requests under watches that agree, agree. -/
theorem Watches.respond {W W' : Watch} (h : I.Watches W W') {i : Interpreter}
    (henv : I.Valid w (.env i.env)) (htables : I.tables i.macros (some i.macros)) {r : Request}
    (hr : I.strict → r.Valid w) : I.Agree w Anything (W.respond i r) (W'.respond i r) := by
  have hforms {w' : World} (hw : w.Grows w') (limits : Limits) {vs : List Value}
      (hvs : I.ValidAll w' vs) :
      I.Agree w' I.Valid (W.evalForms i limits .nil vs) (W'.evalForms i limits .nil vs) :=
    h.evalForms i limits (henv.mono hw) htables valid_nil hvs
  cases r with
  | set name v => exact define henv _ (valid_iff.2 hr)
  | setFunction name f => exact define henv _ fun _ => trivial
  | load limits source =>
    refine bind (readForms limits.room source) fun forms w₁ h₁ hvs => ?_
    exact map _ (orStackOverflow (hforms h₁ limits hvs)) fun _ _ _ _ => trivial
  | render limits program =>
    refine map (P := Anything) _ ?_ fun _ _ _ _ => trivial
    split
    · split
      · exact pure trivial
      · exact throw _
    · refine bind (loadedForms _) fun values w₁ h₁ hvs => ?_
      have houtput : I.Step w₁ { w₁ with output := "" } := .output
      refine bind (captured (hforms (h₁.trans houtput.grows) limits (hvs.mono houtput.grows)))
        fun outcome w₂ _ _ => ?_
      obtain ⟨output, outcome⟩ := outcome
      dsimp only
      split
      · exact pure trivial
      · exact pure trivial
      · exact pure trivial
      · exact pure trivial
      · exact throw _
  | evaluate limits source =>
    refine map (P := Anything) _ ?_ fun _ _ _ _ => trivial
    refine bind (readForms limits.room source) fun forms w₁ h₁ hvs => ?_
    refine tryCatch (weaken (orStackOverflow (hforms h₁ limits hvs)) fun _ _ _ _ => trivial)
      fun s w₂ _ => ?_
    split
    · exact pure trivial
    · exact throw _

/-- Where objects may get new contents, requests keep every invariant. -/
theorem Agree.respond (hmutation : I.mutation) {i : Interpreter} (henv : I.Valid w (.env i.env))
    (htables : I.tables i.macros (some i.macros)) {r : Request} (hr : r.Valid w) :
    I.Keeps w Anything (i.respond r) := by
  rw [← Watch.respond_idle]
  exact (Watches.idle hmutation).respond henv htables fun _ => hr

end

end Invariant

/-! ## Sessions -/

/-- A world without an interpreter in it, in which everything that is referred to exists. -/
structure World.IsHost (w : World) : Prop where
  sound : w.Sound
  closures : w.closures = #[]
  frames : w.frames = #[]
  macroTables : w.macroTables = #[]

/-- The worlds that a session with an interpreter can come to. It starts in a world of the host.
Between requests the host may change the world under the rules, and it may ask for anything that is
let pass. -/
inductive Session [Host] (R : Rules) (Start : World → Prop)
    (Asks : Interpreter → World → Request → Prop) (i : Interpreter) : World → Prop where
  | start {w₀ w : World} (host : w₀.IsHost) (start : Start w₀)
      (made : Interpreter.bare.run w₀ = .ok i w) : Session R Start Asks i w
  | change {w w' : World} (before : Session R Start Asks i w) (step : R.Change w w') :
      Session R Start Asks i w'
  | request {w : World} {r : Request} (before : Session R Start Asks i w) (valid : r.Valid w)
      (asks : Asks i w r) : Session R Start Asks i (Run.leaves ((i.respond r).run w))

namespace World

/-- The world with a new interpreter in it. -/
def withInterpreter (w : World) : World :=
  { w with
    frames :=
      w.frames.push ⟨Bindings.ofNames (Builtin.rootBindings.map fun p => (⟨p.1⟩, p.2)), none⟩
    macroTables := w.macroTables.push BuiltinMacro.table }

theorem isHost_empty : empty.IsHost where
  sound := ⟨fun place v hv => by
    cases place with
    | cell r => rcases List.mem_pair.1 hv with rfl | rfl <;> trivial
    | _ => cases hv⟩
  closures := rfl
  frames := rfl
  macroTables := rfl

theorem inRange_rootBindings (w : World) : ∀ p ∈ Builtin.rootBindings, w.InRange p.2 := by
  have hempty : ∀ p ∈ Builtin.rootBindings, empty.InRange p.2 := by decide
  intro p hp
  exact (hempty p hp).mono (by constructor <;> exact Nat.zero_le _)

variable {w : World}

theorem grows_withInterpreter (w : World) : w.Grows w.withInterpreter := by
  constructor <;> simp [withInterpreter]

theorem IsHost.withInterpreter_sound (h : w.IsHost) : w.withInterpreter.Sound where
  held place v hv := by
    cases place with
    | frame r =>
      have hframe : w.withInterpreter.frame r = if r.index = w.frames.size then
          ⟨Bindings.ofNames (Builtin.rootBindings.map fun p => (⟨p.1⟩, p.2)), none⟩
            else w.frame r := getD_push
      rw [held, hframe] at hv
      split at hv
      · rcases mem_frameValues.1 hv with hv | ⟨o, ho, -⟩
        · obtain ⟨e, he, hv⟩ := mem_entryValues.1 hv
          obtain ⟨b, hb, rfl⟩ := List.mem_map.1 he
          obtain ⟨p, hp, rfl⟩ := List.mem_map.1 hb
          rcases hv with rfl | rfl
          · trivial
          · exact inRange_rootBindings _ p hp
        · cases ho
      · exact (h.sound.held (.frame r) v hv).mono w.grows_withInterpreter
    | macros r =>
      have hmacros : w.withInterpreter.macros r = if r.index = w.macroTables.size then
          BuiltinMacro.table else w.macros r := getD_push
      rw [held, hmacros] at hv
      split at hv
      · exact absurd hv (by simp [macroClosures, BuiltinMacro.table])
      · exact (h.sound.held (.macros r) v hv).mono w.grows_withInterpreter
    | cell r => exact (h.sound.held (.cell r) v hv).mono w.grows_withInterpreter
    | vector r => exact (h.sound.held (.vector r) v hv).mono w.grows_withInterpreter
    | tuple r => exact (h.sound.held (.tuple r) v hv).mono w.grows_withInterpreter
    | map index => exact (h.sound.held (.map index) v hv).mono w.grows_withInterpreter
    | closure r => exact (h.sound.held (.closure r) v hv).mono w.grows_withInterpreter
    | object r => exact (h.sound.held (.object r) v hv).mono w.grows_withInterpreter
    | generator r => exact (h.sound.held (.generator r) v hv).mono w.grows_withInterpreter
    | memory => exact (h.sound.held .memory v hv).mono w.grows_withInterpreter

end World

theorem Interpreter.bare_run (w : World) :
    Interpreter.bare.run w = .ok ⟨⟨w.frames.size⟩, ⟨w.macroTables.size⟩⟩ w.withInterpreter := rfl

/-- An invariant that holds at the start, and that requests keep, holds throughout a session. -/
theorem Session.good [Host] {I : Invariant} [I.Open] {Start : World → Prop}
    {Asks : Interpreter → World → Request → Prop} {i : Interpreter} {w : World}
    (hstart : ∀ w₀ : World, w₀.IsHost → Start w₀ → i.env.index = w₀.frames.size →
      I.holds w₀.withInterpreter)
    (hasks : ∀ {w r}, Asks i w r → r.Valid w → I.Valid w (.env i.env) → I.Good w →
      w.Grows (Run.leaves ((i.respond r).run w)) ∧ I.Good (Run.leaves ((i.respond r).run w)))
    (h : Session I.toRules Start Asks i w) : I.Good w ∧ I.Valid w (.env i.env) := by
  induction h with
  | @start w₀ _ host start made =>
    rw [Interpreter.bare_run] at made
    cases made
    refine ⟨⟨fun _ => host.withInterpreter_sound, hstart w₀ host start rfl⟩,
      Invariant.valid_iff.2 fun _ => ?_⟩
    show w₀.frames.size < w₀.withInterpreter.frames.size
    simp [World.withInterpreter]
  | change _ step ih => exact ⟨ih.1.change (.of_change step), ih.2.mono step.grows⟩
  | @request w r _ valid asks ih =>
    obtain ⟨hgood, henv⟩ := ih
    have hends := hasks asks valid henv hgood
    exact ⟨hends.2, henv.mono hends.1⟩

end TemplateLisp
