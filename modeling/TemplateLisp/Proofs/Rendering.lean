import TemplateLisp.Proofs.Fuel
import TemplateLisp.Proofs.Reading
import TemplateLisp.Proofs.Transcript
import TemplateLisp.Host.Sample

/-!
# Rendering

`Interpreter.render_outcome` says what rendering a program comes to. A text that cannot be read is
reported and leaves the world as it is. Otherwise what the program wrote is reported, exactly and in
order, with the error that stopped it unless it finished or returned.

Rendering should always report. It does not where a failure of the host is nobody's error: then the
failure leaves rendering as it is, and what was written is lost. That happens at an integer literal
that is too long to be read, and in evaluations for the reasons that `World.Raises` gives and no
other (`Run.Explained`). A macro call with arguments that are no sequence always does it
(`eval_macroCall_raises`), where a function call or a special form has an error of its own.
-/

namespace TemplateLisp

/-! ## Failures of the host that leave an evaluation -/

namespace Run

variable [Host]

/-- If the run ends in a failure of the host, the world that it leaves behind has a
reason for it. -/
def Explained ⦃α : Type⦄ (x : Run α) (w : World) : Prop :=
  ∀ f w', x.run w = .error (.crash f) w' → w'.Raises f

namespace Explained

variable {α β : Type}

theorem bind {x : Run α} {f : α → Run β} {w : World} (hx : Explained x w)
    (hf : ∀ a w', x.run w = .ok a w' → Explained (f a) w') : Explained (x >>= f) w := by
  intro g w' h
  rw [EStateM.run_bind] at h
  cases hr : x.run w with
  | ok a w₁ =>
    rw [hr] at h
    exact hf a w₁ hr g w' h
  | error s w₁ =>
    rw [hr] at h
    cases h
    exact hx g w' hr

/-- A handler that lets no failure of the host pass. -/
theorem caught {x : Run α} {handler : Stop → Run α}
    (h : ∀ s w, Explained (handler s) w) (w : World) : Explained (tryCatch x handler) w := by
  intro f w' hr
  rw [run_tryCatch] at hr
  cases hx : x.run w with
  | ok a w₁ => rw [hx] at hr; cases hr
  | error s w₁ => rw [hx] at hr; exact h s w₁ f w' hr

theorem throw {s : Stop} (hs : ∀ f, s ≠ .crash f) (w : World) :
    Explained (MonadExcept.throw s : Run α) w := by
  intro f w' h
  cases h
  exact absurd rfl (hs f)

theorem orHostFault (name : String) (x : Run α) (w : World) :
    Explained (Run.orHostFault name x) w := by
  refine caught (fun s w => ?_) w
  cases s with
  | crash f => exact throw (by simp [Stop.ofFault]) w
  | _ => exact throw (by simp) w

theorem orAccessFault (mayRefuse : Bool) (name : String) (asFault : HostFault → AccessFault)
    (x : Run α) (w : World) : Explained (Run.orAccessFault mayRefuse name asFault x) w := by
  refine caught (fun s w => throw (fun f => ?_) w) w
  cases s with
  | error e =>
    unfold Run.accessStop
    dsimp only
    split <;> nofun
  | _ => nofun

theorem placed {x : Run α} {w : World} (pos : Option Pos) (hx : Explained x w) :
    Explained (Run.placed pos x) w := by
  intro f w' hr
  unfold Run.placed at hr
  rw [run_tryCatch] at hr
  cases h : x.run w with
  | ok a w₁ => rw [h] at hr; cases hr
  | error s w₁ =>
    rw [h] at hr
    cases s with
    | crash g =>
      cases hr
      exact hx f w' h
    | _ => cases hr

theorem composable : Composable Explained where
  pure _ _ _ _ h := by cases h
  bind := bind
  stop _ w hs := throw hs w
  crash f w hf g w' h := by
    cases h
    exact hf
  lookOrStop f w hf g w' h := by
    rw [run_lookOrStop] at h
    cases hfw : f w with
    | ok a => rw [hfw] at h; cases h
    | error s =>
      rw [hfw] at h
      cases h
      exact hf g hfw
  make _ _ _ _ _ h := by cases h
  placed := placed
  builtin _ _ _ _ w _ := orHostFault _ _ w
  hostFunction _ name _ _ _ _ w _ := orHostFault name _ w
  findMember name asFault _ _ _ w _ := orAccessFault true name asFault _ w
  callMember name asFault _ _ _ _ w _ := orAccessFault false name asFault _ w

end Explained

theorem Composable.evalForms {P : ∀ ⦃α : Type⦄, Run α → World → Prop} (h : Composable P)
    (i : Interpreter) (limits : Limits) (last : Value) (vs : List Value) (w : World) :
    P (i.evalForms limits last vs) w := by
  induction vs generalizing last w with
  | nil => exact h.pure last w
  | cons v vs ih => exact h.seq (h.evaluate limits.fuel (i.site limits) v w) fun v w => ih v w

end Run

/-- A macro call with arguments that are no sequence is a failure of the host. -/
theorem eval_macroCall_raises [Host] {w : World} {site : Site} {r : CellRef} {s : Symbol}
    {t : Transformer} (hroom : site.room = .unbounded) (hcar : (w.cell r).car = .sym s)
    (ht : w.transformer? site.macros s = some t) (hcdr : w.cursor? (w.cell r).cdr = none) (n : Nat)
    (tail : Bool) :
    (eval (n + 1) tail site (.cell r)).run w =
      .error (.crash (.notIterable (w.qualifiedTypeName (w.cell r).cdr))) w := by
  have hdeeper : site.deeper = pure { site with room := .unbounded } := by
    rw [Site.deeper, hroom]
    rfl
  have hargs : (Evaluator.macroArguments .unbounded (w.cell r).cdr).run w =
      .error (.crash (.notIterable (w.qualifiedTypeName (w.cell r).cdr))) w := by
    unfold Evaluator.macroArguments
    split
    · rename_i m hm
      rw [hm] at hcdr
      cases hcdr
    · rw [Run.run_look_bind, hcdr]
      rfl
  have hform (e : Evaluator) : (e.form n tail { site with room := .unbounded } r).run w =
      .error (.crash (.notIterable (w.qualifiedTypeName (w.cell r).cdr))) w := by
    unfold Evaluator.form
    rw [Run.run_look_bind, hcar]
    show (e.symbolForm n tail _ r s).run w = _
    unfold Evaluator.symbolForm
    rw [Run.run_look_bind, ht]
    show (Run.look _ >>= _).run w = _
    rw [Run.run_look_bind, EStateM.run_bind, hargs]
  show (Evaluator.any ⟨eval n, call n⟩ n tail site (.cell r)).run w = _
  unfold Evaluator.any
  dsimp only
  rw [hdeeper, pure_bind, Run.run_look_bind, Run.placed, Run.run_tryCatch, hform]
  rfl

/-! ## What is reported -/

theorem Run.run_captured {α : Type} (x : Run α) (w : World) :
    (Run.captured x).run w = match x.run { w with output := "" } with
      | .ok a w' => .ok (w'.output, .ok a) { w' with output := w.output }
      | .error s w' => .ok (w'.output, .error s) { w' with output := w.output } := by
  cases h : x { w with output := "" } <;> simp only [EStateM.run, Run.captured, h]

namespace Interpreter

/-- How rendering ends when the evaluation of the forms has ended as said and written the text.
`before` is what stood in the output before it began. -/
def report (text before : String) :
    EStateM.Result Stop World Value → EStateM.Result Stop World Rendering
  | .ok _ w => .ok ⟨text, none⟩ { w with output := before }
  | .error (.returned _) w => .ok ⟨text, none⟩ { w with output := before }
  | .error (.error e) w => .ok ⟨text, some e⟩ { w with output := before }
  | .error .tooDeep w => .ok ⟨text, some ⟨.tooDeep, none⟩⟩ { w with output := before }
  | .error (.crash f) w => .error (.crash f) { w with output := before }
  | .error .endless w => .error .endless { w with output := before }

variable (i : Interpreter) (room : Room) (program : String)

theorem evalForms_below [Host] {n m : Nat} (hnm : n ≤ m) (last : Value) (vs : List Value) :
    Run.Below (i.evalForms ⟨room, n⟩ last vs) (i.evalForms ⟨room, m⟩ last vs) := by
  induction vs generalizing last with
  | nil => exact .refl _
  | cons v vs ih => exact .bind (evaluate_below hnm _ v) fun v => ih v

/-- What rendering comes to is what the evaluation of the forms comes to, with what it wrote. -/
theorem render_of_read [Host] (limits : Limits) {forms : List Datum}
    (hread : read limits.room program = .ok forms) {w loaded : World} {values : List Value}
    (hload : w.loadItems [] forms = (values, loaded)) {outcome : EStateM.Result Stop World Value}
    (heval : (i.evalForms limits .nil values).run { loaded with output := "" } = outcome) :
    (i.render limits program).run w =
      report (Run.leaves outcome).output loaded.output outcome := by
  subst heval
  unfold render
  rw [hread]
  show EStateM.run (Run.make (fun w => w.loadItems [] forms) >>= _) w = _
  rw [EStateM.run_bind]
  have hmake : (Run.make fun w => w.loadItems [] forms).run w = .ok values loaded := by
    show (EStateM.Result.ok (w.loadItems [] forms).1 (w.loadItems [] forms).2) = _
    rw [hload]
  rw [hmake]
  show EStateM.run (Run.captured (i.evalForms limits .nil values) >>= _) loaded = _
  rw [EStateM.run_bind, Run.run_captured]
  cases (i.evalForms limits .nil values).run { loaded with output := "" } with
  | ok a w' => rfl
  | error s w' => cases s <;> rfl

/-- More fuel never changes a rendering that ends. -/
theorem render_below [Host] {n m : Nat} (hnm : n ≤ m) :
    Run.Below (i.render ⟨room, n⟩ program) (i.render ⟨room, m⟩ program) := by
  intro w
  cases hread : read room program with
  | error f =>
    right
    unfold render
    rw [hread]
  | ok forms =>
    obtain ⟨⟨values, loaded⟩, hload⟩ : ∃ p, w.loadItems [] forms = p := ⟨_, rfl⟩
    have hrender (k : Nat) := i.render_of_read program ⟨room, k⟩ hread hload rfl
    rw [hrender n, hrender m]
    rcases i.evalForms_below room hnm .nil values { loaded with output := "" } with ⟨w', h⟩ | h
    · rw [h]
      exact .inl ⟨_, rfl⟩
    · exact .inr (by rw [h])

/-- What rendering a program comes to, for every interpreter, world and bound on the steps, where
nesting has no bound. It reports, except for literals that are too long and for the failures of the
host that leave an evaluation; a macro call with arguments that are no sequence is always one. -/
theorem render_outcome [Host] (fuel : Nat) (w : World) :
    (∀ more, fuel ≤ more → Run.Below (i.render ⟨.unbounded, fuel⟩ program)
      (i.render ⟨.unbounded, more⟩ program)) ∧
    (match read .unbounded program with
    | .error (.fault f pos) =>
      (i.render ⟨.unbounded, fuel⟩ program).run w = .ok ⟨"", some ⟨.reading f, pos⟩⟩ w
    | .error (.literalTooLong digits) =>
      (i.render ⟨.unbounded, fuel⟩ program).run w = .error (.crash (.literalTooLong digits)) w ∧
        ∃ t ∈ (lex program.toList).tokens, ¬ t.ShortLiteral
    | .error .tooDeep => False
    | .ok forms =>
      ∃ texts outcome,
        Run.Transcript (i.evalForms ⟨.unbounded, fuel⟩ .nil (w.loadItems [] forms).1)
          { (w.loadItems [] forms).2 with output := "" } texts outcome ∧
        (i.render ⟨.unbounded, fuel⟩ program).run w =
          report (String.join texts) (w.loadItems [] forms).2.output outcome ∧
        ∀ f w', outcome = .error (.crash f) w' → w'.Raises f) ∧
    ∀ (w : World) (env : FrameRef) (macros : MacroTableRef) (ambient : Option MacroTableRef)
      (r : CellRef) (s : Symbol) (t : Transformer) (n : Nat) (tail : Bool),
      (w.cell r).car = .sym s → w.transformer? macros s = some t → w.cursor? (w.cell r).cdr = none →
      (eval (n + 1) tail ⟨env, macros, ambient, .unbounded⟩ (.cell r)).run w =
        .error (.crash (.notIterable (w.qualifiedTypeName (w.cell r).cdr))) w := by
  refine ⟨fun more hmore => i.render_below .unbounded program hmore, ?_,
    fun w env macros ambient r s t n tail hcar ht hcdr =>
      eval_macroCall_raises rfl hcar ht hcdr n tail⟩
  split
  · rename_i f pos hread
    unfold render
    rw [hread]
    rfl
  · rename_i digits hread
    refine ⟨?_, ?_⟩
    · unfold render
      rw [hread]
      rfl
    · obtain ⟨_, _, hfault⟩ | ⟨_, _, hlong⟩ := read_failure hread
      · cases hfault
      · exact hlong
  · rename_i hread
    obtain ⟨_, _, hfault⟩ | ⟨_, hlong, _⟩ := read_failure hread
    · cases hfault
    · cases hlong
  · rename_i forms hread
    obtain ⟨⟨values, loaded⟩, hload⟩ : ∃ p, w.loadItems [] forms = p := ⟨_, rfl⟩
    rw [hload]
    obtain ⟨texts, htranscript⟩ := Run.Transcribed.composable.evalForms i ⟨.unbounded, fuel⟩ .nil
      values { loaded with output := "" }
    refine ⟨texts, _, htranscript, ?_, ?_⟩
    · have houtput := htranscript.output
      rw [String.empty_append] at houtput
      rw [i.render_of_read program _ hread hload rfl, houtput]
    · exact Run.Explained.composable.evalForms i _ .nil values _

open scoped SampleHost in
/-- The text that is written first is lost. -/
example : (match (do (← bare).render ⟨.unbounded, 9⟩ "(print 1)(when . 5)").run .empty with
    | .error (.crash f) w => decide (f = .notIterable "int" ∧ w.output = "")
    | _ => false) = true := by decide +kernel

end Interpreter

end TemplateLisp
