import TemplateLisp.Proofs.ClosedProperties

/-!
# What holds of the parts of an evaluation

A closed property that holds of calls of built-in functions and of the host holds of every
evaluation. `Run.Composable` collects what is needed, and `Run.Composable.evaluator` carries the
property through the evaluator, once for all such properties: one lemma for each way in which an
evaluation goes on with parts of a form, and an induction on the fuel at the end.
-/

namespace TemplateLisp

/-! ## Evaluations -/

/-- A closed property that also passes to a run that errors get their place from, and that holds of
calls of built-in functions and of the host, where failures of the host become errors. -/
structure Run.Composable [Host] (P : ∀ ⦃α : Type⦄, Run α → World → Prop) :
    Prop extends Run.Closed P where
  placed : ∀ {α : Type} {x : Run α} {w : World} (pos : Option Pos), P x w → P (Run.placed pos x) w
  builtin : ∀ (b : Builtin) (room : Room) {call : Caller} (args : List Value) (w : World),
    (∀ f args w, P (call f args) w) → P (Run.orHostFault b.hostName (b.run room call args)) w
  hostFunction : ∀ (g : HostFunctionRef) (name : String) (room : Room) {call : FrameRef → Caller}
    (env : FrameRef) (args : List Value) (w : World), (∀ env f args w, P (call env f args) w) →
    P (Run.orHostFault name (Host.callFunction room call env g args)) w
  findMember : ∀ (name : String) (asFault : HostFault → AccessFault) (room : Room)
    {call : FrameRef → Caller} (receiver : Value) (w : World),
      (∀ env f args w, P (call env f args) w) →
    P (Run.orAccessFault true name asFault (Run.findMember room call receiver name)) w
  callMember : ∀ (name : String) (asFault : HostFault → AccessFault) (room : Room)
    {call : FrameRef → Caller} (args : List Value) (m : Member) (w : World),
    (∀ env f args w, P (call env f args) w) →
    P (Run.orAccessFault false name asFault (Run.callMember room call args m)) w

/-- Everything that an evaluator does has a property, from every world. -/
structure Evaluator.Has (e : Evaluator) (P : ∀ ⦃α : Type⦄, Run α → World → Prop) : Prop where
  eval : ∀ tail site v w, P (e.eval tail site v) w
  call : ∀ site f args w, P (e.call site f args) w

namespace Run.Composable

section
variable [Host] {P : ∀ ⦃α : Type⦄, Run α → World → Prop} (h : Run.Composable P)
include h

theorem member (room : Room) {call : FrameRef → Caller}
    (hcall : ∀ env f args w, P (call env f args) w) (receiver : Value) (name : String)
    (args : List Value) (w : World) :
    P (Run.member room call receiver name args) w := by
  refine Closed.ite (h.fail w _) (Closed.ite (h.fail w _) ?_)
  refine h.seq (h.typeName w receiver) fun owner w => ?_
  refine h.seq (h.findMember name _ room receiver w hcall) fun found w => ?_
  split
  · exact h.fail w _
  · exact Closed.ite (h.pure _ w) (h.fail w _)
  · exact h.callMember name _ room args _ w hcall

theorem deeper (site : Site) (w : World) : P site.deeper w := by
  unfold Site.deeper
  split
  · exact h.pure _ w
  · exact h.stop _ w (by simp)

/-! ### Macro calls -/

theorem block (body : List Value) (w : World) : P (BuiltinMacro.block body) w := h.list w _

theorem step (m : BuiltinMacro) (room : Room) (operator : String) (args : List Value) (w : World) :
    P (m.step room operator args) w := by
  unfold BuiltinMacro.step
  split
  rotate_right
  · exact h.fail w _
  all_goals
    dsimp only
    split
    · exact h.seq (h.list w _) fun _ w => h.list w _
    · exact h.failAfter (h.shown w room _) _

theorem expandBuiltin (m : BuiltinMacro) (room : Room) (args : List Value) (w : World) :
    P (m.expand room args) w := by
  cases m with
  | whenTrue =>
    cases args with
    | nil => exact h.fail w _
    | cons test body => exact h.seq (h.block body w) fun _ w => h.list w _
  | unlessTrue =>
    cases args with
    | nil => exact h.fail w _
    | cons test body =>
      exact h.seq (h.list w _) fun _ w => h.seq (h.block body w) fun _ w => h.list w _
  | incf => exact h.step _ room _ args w
  | decf => exact h.step _ room _ args w

/-- The arguments of a macro call that the world shows. -/
theorem macroArguments {w : World} {table : MacroTableRef} {r : CellRef} {s : Symbol}
    {t : Transformer} (room : Room) (hcar : (w.cell r).car = .sym s)
    (ht : w.transformer? table s = some t) :
    P (Evaluator.macroArguments room (w.cell r).cdr) w := by
  unfold Evaluator.macroArguments
  split
  · exact h.seq (h.look w _) fun _ w => h.pure _ w
  · refine h.bind (h.look w _) fun found w' hw => ?_
    obtain ⟨rfl, rfl⟩ : found = w.cursor? (w.cell r).cdr ∧ w' = w := by cases hw; exact ⟨rfl, rfl⟩
    split
    · exact h.toList w' room _
    · rename_i hnone
      refine h.bind (h.look w' _) fun name w hw => ?_
      cases hw
      exact h.crash _ w' (.notIterable hcar ht hnone)

/-! ### Parts of evaluations -/

variable {e : Evaluator} (he : e.Has P)
include he

theorem value (site : Site) (v : Value) (w : World) : P (e.value site v) w :=
  h.seq (he.eval false site v w) fun _ w => h.pure _ w

theorem each (site : Site) (vs : List Value) (w : World) : P (e.each site vs) w := by
  induction vs generalizing w with
  | nil => exact h.pure _ w
  | cons v vs ih => exact h.seq (h.map _ (h.value he site v w)) fun _ w => ih w

theorem complete (site : Site) (n : Nat) (a : Answer true) (w : World) :
    P (e.complete site n a) w := by
  induction n generalizing a w with
  | zero =>
    cases a with
    | value v => exact h.pure v w
    | call r env => exact h.stop _ w (by simp)
  | succ n ih =>
    cases a with
    | value v => exact h.pure v w
    | call r env =>
      exact h.seq (h.look w _) fun body w => h.seq (he.eval true _ body w) fun a w => ih a w

theorem sequence (tail : Bool) (site : Site) (vs : List Value) (w : World) :
    P (e.sequence tail site vs) w := by
  induction vs generalizing w with
  | nil => exact h.pure _ w
  | cons v vs ih =>
    cases vs with
    | nil => exact he.eval tail site v w
    | cons u vs => exact h.seq (h.map _ (h.value he site v w)) fun _ w => ih w

theorem arguments (site : Site) (n : Nat) (found : List Value) (v : Value) (w : World) :
    P (e.arguments site n found v) w := by
  induction n generalizing found v w with
  | zero => exact h.stop _ w (by simp)
  | succ n ih =>
    cases v with
    | cell r =>
      exact h.seq (h.look w _) fun car w => h.seq (h.value he site car w) fun x w =>
        h.seq (h.look w _) fun cdr w => ih (x :: found) cdr w
    | nil => exact h.pure _ w
    | _ => exact h.fail w _

theorem expand (site : Site) (args : List Value) (t : Transformer) (w : World) :
    P (e.expand site args t) w := by
  cases t with
  | builtin m => exact h.expandBuiltin m site.room args w
  | closure r =>
    exact h.seq (h.look w _) fun c w => h.seq (h.bindArguments w _ args _ _) fun env w =>
      h.value he _ c.body w

theorem hostCaller (site : Site) (env : FrameRef) (f : Value) (args : List Value) (w : World) :
    P (e.hostCaller site env f args) w := h.seq (h.deeper site w) fun _ w => he.call _ f args w

omit he in
theorem mapVectorAt {α : Type} {f : Value → Run α} (hf : ∀ v w, P (f v) w) (r : VectorRef)
    (n index : Nat) (found : List α) (w : World) : P (Run.mapVectorAt f r n index found) w := by
  induction n generalizing index found w with
  | zero => exact h.stop _ w (by simp)
  | succ n ih =>
    refine h.seq (h.look w _) fun items w => ?_
    split
    · exact h.pure _ w
    · exact h.seq (hf _ w) fun a w => ih _ _ w

omit he in
theorem mapEntriesAt {f : Value → Run Value} (hf : ∀ v w, P (f v) w) (r : MapRef) (size left : Nat)
    (found : List (Value × Value)) (w : World) : P (Run.mapEntriesAt f r size left found) w := by
  induction left generalizing found w with
  | zero =>
    unfold Run.mapEntriesAt
    exact h.seq (h.look w _) fun es w => Closed.ite (h.crash _ w .mapResized) (h.pure _ w)
  | succ left ih =>
    unfold Run.mapEntriesAt
    refine h.seq (h.look w _) fun es w => Closed.ite (h.crash _ w .mapResized) ?_
    dsimp only
    split
    · exact h.pure _ w
    · exact h.seq (hf _ w) fun x w => ih _ w

omit he in
theorem mapEntries {f : Value → Run Value} (hf : ∀ v w, P (f v) w) (r : MapRef) (w : World) :
    P (Run.mapEntries f r) w :=
  h.seq (h.look w _) fun _ w => h.seq (h.mapEntriesAt hf r _ _ [] w) fun _ w => h.newMap w _

/-! ### Templates -/

omit he in
theorem spliced (room : Room) (v : Value) (w : World) : P (Quasiquote.spliced room v) w := by
  cases v with
  | nil => exact h.pure _ w
  | cell r => exact h.properItems w room _
  | vector r => exact h.look w _
  | tuple r => exact h.look w _
  | _ => exact h.failAfter (h.typeName w _) _

section
variable {copy : Value → Run Value} (hcopy : ∀ v w, P (copy v) w)
include hcopy

theorem element (site : Site) (nesting : Nat) (v : Value) (w : World) :
    P (Quasiquote.element e site nesting copy v) w := by
  refine h.seq (h.look w _) fun found w => ?_
  split
  · exact h.seq (h.value he site _ w) fun x w => h.spliced site.room x w
  · exact h.seq (hcopy v w) fun _ w => h.pure _ w

theorem elements (site : Site) (nesting n : Nat) (r : VectorRef) (w : World) :
    P (Quasiquote.elements e site nesting copy n r) w :=
  h.seq (h.mapVectorAt (h.element he hcopy site nesting) r n 0 [] w) fun _ w => h.pure _ w

theorem spine (site : Site) (nesting : Nat) (first : CellRef) (n : Nat)
    (found : List Value) (v : Value) (w : World) :
    P (Quasiquote.spine e site nesting copy first n found v) w := by
  induction n generalizing found v w with
  | zero => exact h.stop _ w (by simp)
  | succ n ih =>
    cases v with
    | cell r =>
      refine h.seq (h.look w _) fun hole w => Closed.ite ?_ ?_
      · exact h.seq (hcopy _ w) fun _ w => h.listWithTail w _ _
      · exact h.seq (h.look w _) fun car w => h.seq (h.element he hcopy site nesting car w)
          fun new w => h.seq (h.look w _) fun cdr w => ih _ cdr w
    | nil => exact h.list w _
    | _ => exact h.seq (hcopy _ w) fun _ w => h.listWithTail w _ _

end

theorem copy (n : Nat) (site : Site) (nesting : Nat) (v : Value) (w : World) :
    P (Quasiquote.copy e n site nesting v) w := by
  induction n generalizing site nesting v w with
  | zero => exact h.stop _ w (by simp)
  | succ n ih =>
    have hmarked : ∀ name inner d x w,
        P (Quasiquote.copy e n inner d x >>= fun y => Quasiquote.marked name y) w :=
      fun name inner d x w => h.seq (ih inner d x w) fun _ w => h.list w _
    cases v with
    | cell r =>
      refine h.seq (h.deeper site w) fun inner w => h.seq (h.look w _) fun hole w => ?_
      cases hole with
      | some x =>
        cases nesting with
        | zero => exact h.value he inner x w
        | succ d => exact hmarked _ inner d x w
      | none =>
        refine h.seq (h.look w _) fun splice w => ?_
        cases splice with
        | some x =>
          cases nesting with
          | zero => exact h.fail w _
          | succ d => exact hmarked _ inner d x w
        | none =>
          refine h.seq (h.look w _) fun nested w => ?_
          cases nested with
          | some x => exact hmarked _ inner (nesting + 1) x w
          | none => exact h.spine he (ih inner nesting) inner nesting r n [] _ w
    | vector r =>
      exact h.seq (h.deeper site w) fun inner w =>
        h.seq (h.elements he (ih inner nesting) inner nesting n r w) fun _ w => h.vector w _
    | map r =>
      exact h.seq (h.deeper site w) fun inner w => h.mapEntries (ih inner nesting) r w
    | _ => exact h.pure _ w

/-! ### Loops -/

omit he in
theorem loopSpec (room : Room) (form : String) (v : Value) (w : World) :
    P (LoopSpec.ofValue room form v) w := by
  cases v with
  | cell r =>
    refine h.seq (h.properItems w room _) fun items w => ?_
    dsimp only
    split
    all_goals
      refine h.seq ?_ fun parts w => ?_
      rotate_left
      · split
        · exact h.pure _ w
        · exact h.failAfter (h.shown w room _) _
    · exact h.pure _ w
    · exact h.pure _ w
    · exact h.fail w _
  | _ => exact h.fail w _

theorem turn (site : Site) (name : Symbol) (body : List Value) (v : Value) (w : World) :
    P (e.turn site name body v) w :=
  h.seq (h.make _ (fun _ => rfl) w) fun _ w => h.each he _ body w

theorem turns (site : Site) (name : Symbol) (body : List Value) (n : Nat) (c : Cursor) (w : World) :
    P (e.turns site name body n c) w := by
  induction n generalizing c w with
  | zero => exact h.stop _ w (by simp)
  | succ n ih =>
    refine h.seq (h.next w site.room c) fun next w => ?_
    cases next with
    | none => exact h.pure _ w
    | some p => exact h.seq (h.turn he site name body p.1 w) fun _ w => ih p.2 w

theorem countedTurns (site : Site) (name : Symbol) (body : List Value) (left i : Nat) (w : World) :
    P (e.countedTurns site name body left i) w := by
  induction left generalizing i w with
  | zero => exact h.pure _ w
  | succ left ih => exact h.seq (h.turn he site name body _ w) fun _ w => ih (i + 1) w

theorem loopResult (site : Site) (spec : LoopSpec) (w : World) : P (e.loopResult site spec) w := by
  unfold Evaluator.loopResult
  split
  · exact h.pure _ w
  · exact h.value he site _ w

theorem sequenceLoop (n : Nat) (site : Site) (form : String) (listsOnly : Bool) (specForm : Value)
    (body : List Value) (w : World) :
    P (e.sequenceLoop n site form listsOnly specForm body) w := by
  have hrest : ∀ spec source w, P (do
      e.turns site spec.variableName body n (← Run.cursor form 1 source)
      e.loopResult site spec) w := fun spec source w =>
    h.seq (h.cursor w form 1 source) fun c w => h.seq (h.turns he site _ body n c w) fun _ w =>
      h.loopResult he site spec w
  refine h.seq (h.loopSpec site.room form specForm w) fun spec w =>
    h.seq (h.value he site spec.source w) fun source w => Closed.ite ?_ (hrest spec source w)
  exact h.seq (h.typeName w source) fun _ w => h.seq (h.fail w _) fun _ w => hrest spec source w

theorem countLoop (site : Site) (specForm : Value) (body : List Value) (w : World) :
    P (e.countLoop site specForm body) w := by
  refine h.seq (h.loopSpec site.room "dotimes" specForm w) fun spec w =>
    h.seq (h.value he site spec.source w) fun count w => ?_
  split
  · exact h.seq (h.countedTurns he site _ body _ 0 w) fun _ w => h.loopResult he site spec w
  · exact h.failAfter (h.typeName w _) _

theorem whileLoop (site : Site) (test : Value) (body : List Value) (n : Nat) (w : World) :
    P (e.whileLoop site test body n) w := by
  induction n generalizing w with
  | zero => exact h.stop _ w (by simp)
  | succ n ih =>
    exact h.seq (h.value he site test w) fun _ w =>
      Closed.ite (h.seq (h.each he site body w) fun _ w => ih w) (h.pure _ w)

/-! ### Special forms -/

omit he in
theorem closure (site : Site) (params : Value) (forms : List Value) (name : Option String)
    (w : World) : P (SpecialForm.closure site params forms name) w := by
  have hbody : P (SpecialForm.body forms) w := by
    match forms with
    | [] => exact h.pure _ w
    | [_] => exact h.pure _ w
    | _ :: _ :: _ => exact h.list w _
  exact h.seq hbody fun _ w => h.seq (h.parameterList w site.room params) fun _ w =>
    h.make _ (fun _ => rfl) w

omit he in
theorem defineFunction (site : Site) (args : List Value) (w : World) :
    P (SpecialForm.defineFunction site args) w := by
  unfold SpecialForm.defineFunction
  split
  · split
    · exact h.seq (h.closure site _ _ _ w) fun _ w => h.seq (h.assign w _ _ _) fun _ w => h.pure _ w
    · exact h.failAfter (h.shown w site.room _) _
  · exact h.fail w _

omit he in
theorem defineMacro (site : Site) (args : List Value) (w : World) :
    P (SpecialForm.defineMacro site args) w := by
  unfold SpecialForm.defineMacro
  split
  · split
    · exact h.seq (h.closure site _ _ _ w) fun _ w =>
        h.seq (h.modify w _ fun _ => rfl) fun _ w => h.pure _ w
    · exact h.failAfter (h.shown w site.room _) _
  · exact h.fail w _

theorem assignPairs (site : Site) (last : Value) (vs : List Value) (w : World) :
    P (SpecialForm.assignPairs e site last vs) w := by
  unfold SpecialForm.assignPairs
  split
  · refine Closed.ite (h.failAfter (h.shown w site.room _) _) ?_
    exact h.seq (h.value he site _ w) fun v w => h.seq (h.assign w _ _ v) fun _ w =>
      assignPairs site v _ w
  · exact h.failAfter (h.shown w site.room _) _
  · exact h.pure _ w
termination_by vs.length

theorem bindOne (site : Site) (binding : Value) (w : World) :
    P (SpecialForm.bindOne e site binding) w := by
  unfold SpecialForm.bindOne
  split
  · exact h.define w _ _ _
  · refine h.seq (h.look w _) fun car w => ?_
    split
    · refine h.seq (h.properItems w site.room _) fun items w => ?_
      split
      · exact h.define w _ _ _
      · exact h.seq (h.value he site _ w) fun _ w => h.define w _ _ _
      · exact h.failAfter (h.shown w site.room _) _
    · exact h.failAfter (h.shown w site.room _) _
  · exact h.failAfter (h.shown w site.room _) _

theorem bindAll (site : Site) (n : Nat) (c : Cursor) (w : World) :
    P (SpecialForm.bindAll e site n c) w := by
  induction n generalizing c w with
  | zero => exact h.stop _ w (by simp)
  | succ n ih =>
    refine h.seq (h.next w site.room c) fun next w => ?_
    cases next with
    | none => exact h.pure _ w
    | some p => exact h.seq (h.bindOne he site p.1 w) fun _ w => ih p.2 w

theorem bindLocals (n : Nat) (tail : Bool) (site : Site) (args : List Value) (w : World) :
    P (SpecialForm.bindLocals e n tail site args) w := by
  cases args with
  | nil => exact h.fail w _
  | cons bindings forms =>
    refine Closed.ite (h.seq (h.newFrame w _) fun env w => ?_) (h.failAfter (h.shown w _ _) _)
    exact h.seq (h.cursor w _ _ bindings) fun c w => h.seq (h.bindAll he _ n c w) fun _ w =>
      h.sequence he tail _ forms w

theorem branch (tail : Bool) (site : Site) (args : List Value) (w : World) :
    P (SpecialForm.branch e tail site args) w := by
  unfold SpecialForm.branch
  split
  · exact h.seq (h.value he site _ w) fun _ w =>
      Closed.ite (he.eval tail site _ w) (h.pure _ w)
  · exact h.seq (h.value he site _ w) fun _ w =>
      Closed.ite (he.eval tail site _ w) (he.eval tail site _ w)
  · exact h.fail w _

theorem clauses (tail : Bool) (site : Site) (args : List Value) (w : World) :
    P (SpecialForm.clauses e tail site args) w := by
  induction args generalizing w with
  | nil => exact h.pure _ w
  | cons clause rest ih =>
    cases clause with
    | cell r =>
      refine h.seq (h.properItems w site.room _) fun items w => ?_
      cases items with
      | nil => exact ih w
      | cons test forms =>
        exact h.seq (h.value he site test w) fun _ w =>
          Closed.ite (ih w) (Closed.ite (h.pure _ w) (h.sequence he tail site forms w))
    | _ => exact h.failAfter (h.shown w site.room _) _

theorem operands (tail : Bool) (site : Site) (stopAt : Bool) (none : Value) (args : List Value)
    (w : World) : P (SpecialForm.operands e tail site stopAt none args) w := by
  induction args generalizing w with
  | nil => exact h.pure _ w
  | cons v vs ih =>
    cases vs with
    | nil => exact he.eval tail site v w
    | cons u vs =>
      exact h.seq (h.value he site v w) fun _ w => Closed.ite (h.pure _ w) (ih w)

omit he in
theorem answer {tail : Bool} {x : Run Value} {w : World} (hx : P x w) :
    P (SpecialForm.answer x : Run (Answer tail)) w := h.seq hx fun _ w => h.pure _ w

theorem loop (n : Nat) (site : Site) (form role : String) (listsOnly : Bool) (args : List Value)
    (w : World) : P (SpecialForm.loop e n site form role listsOnly args) w := by
  cases args with
  | nil => exact h.fail w _
  | cons spec forms => exact h.sequenceLoop he n site form listsOnly spec forms w

theorem special (f : SpecialForm) (n : Nat) (tail : Bool) (site : Site) (args : List Value)
    (w : World) : P (f.run e n tail site args) w := by
  cases f with
  | setq =>
    exact h.answer (Closed.ite (h.fail w _) (h.assignPairs he site .nil args w))
  | progn => exact h.sequence he tail site args w
  | definesMacro => exact h.answer (h.defineMacro site args w)
  | quote =>
    match args with
    | [v] => exact h.pure _ w
    | [] => exact h.fail w _
    | _ :: _ :: _ => exact h.fail w _
  | quasiquote =>
    match args with
    | [v] => exact h.answer (h.copy he n site 0 v w)
    | [] => exact h.fail w _
    | _ :: _ :: _ => exact h.fail w _
  | unquote | unquoteSplicing => exact h.fail w _
  | fn =>
    cases args with
    | nil => exact h.answer (h.fail w _)
    | cons params forms => exact h.answer (h.seq (h.closure site _ _ _ w) fun _ w => h.pure _ w)
  | defn => exact h.answer (h.defineFunction site args w)
  | bindLocally => exact h.bindLocals he n tail site args w
  | choose => exact h.branch he tail site args w
  | cond => exact h.clauses he tail site args w
  | conjunction | disjunction => exact h.operands he tail site _ _ args w
  | dolist | doseq => exact h.answer (h.loop he n site _ _ _ args w)
  | dotimes =>
    cases args with
    | nil => exact h.fail w _
    | cons spec forms => exact h.answer (h.countLoop he site spec forms w)
  | loopWhile =>
    cases args with
    | nil => exact h.fail w _
    | cons test forms => exact h.seq (h.whileLoop he site test forms n w) fun _ w => h.pure _ w
  | leave =>
    match args with
    | [] => exact h.stop _ w (by simp)
    | [v] => exact h.seq (h.value he site v w) fun _ w => h.stop _ w (by simp)
    | _ :: _ :: _ => exact h.fail w _

/-! ### Calls and forms -/

theorem finish (n : Nat) (site : Site) (r : ClosureRef) (env : FrameRef) (tail : Bool) (w : World) :
    P (e.finish n site r env tail) w := by
  cases tail with
  | true => exact h.pure _ w
  | false => exact h.seq (h.complete he site n _ w) fun _ w => h.pure _ w

theorem apply (n : Nat) (tail : Bool) (site : Site) (f : Value) (args : List Value) (w : World) :
    P (e.apply n tail site f args) w := by
  cases f with
  | closure r =>
    exact h.seq (h.look w _) fun c w => h.seq (h.bindArguments w _ args _ _) fun env w =>
      h.finish he n site r env tail w
  | builtin b =>
    exact h.answer (h.seq (h.deeper site w) fun inner w =>
      h.builtin b inner.room args w (he.call inner))
  | hostFunction g name =>
    exact h.answer (h.hostFunction g name site.room site.env args w (h.hostCaller he site))
  | sym s => exact Closed.ite (h.answer (h.ofKeyword w s args)) (h.fail w _)
  | _ => exact h.failAfter (h.shown w site.room _) _

theorem callBack (n : Nat) (site : Site) (f : Value) (args : List Value) (w : World) :
    P (e.callBack n site f args) w := by
  have happly : ∀ table w, P (do
      return (← e.apply n false { site with macros := table } f args).get) w :=
    fun table w => h.seq (h.apply he n false _ f args w) fun _ w => h.pure _ w
  unfold Evaluator.callBack
  split
  · exact h.seq (h.pure _ w) happly
  · exact h.seq (h.make _ (fun _ => rfl) w) happly

theorem callHead (n : Nat) (tail : Bool) (site : Site) (r : CellRef) (head f : Value) (w : World) :
    P (e.callHead n tail site r head f) w := by
  refine Closed.ite (h.seq (h.look w _) fun forms w => ?_) ?_
  · exact h.seq (h.arguments he site n [] forms w) fun args w => h.apply he n tail site f args w
  · exact h.seq (h.plain w site.room head) fun _ w => h.failAfter (h.shown w site.room f) _

theorem memberForm (n : Nat) (site : Site) (r : CellRef) (s : Symbol) (w : World) :
    P (e.memberForm n site r s) w := by
  refine h.seq (h.look w _) fun forms w => h.seq (h.arguments he site n [] forms w) fun args w => ?_
  cases args with
  | nil => exact h.fail w _
  | cons receiver args => exact h.member site.room (h.hostCaller he site) receiver _ args w

omit he in
theorem specialArguments (site : Site) (v : Value) (w : World) :
    P (Evaluator.specialArguments site v) w := by
  cases v with
  | cell r => exact h.properItems w site.room _
  | _ => exact h.pure _ w

theorem symbolForm (n : Nat) (tail : Bool) (site : Site) {r : CellRef} {s : Symbol} {w : World}
    (hcar : (w.cell r).car = .sym s) : P (e.symbolForm n tail site r s) w := by
  refine h.bind (h.look w _) fun transformer w' hw => ?_
  obtain ⟨rfl, rfl⟩ : transformer = w.transformer? site.macros s ∧ w' = w := by
    cases hw
    exact ⟨rfl, rfl⟩
  have hargs : ∀ cdr w, P (e.arguments site n [] cdr) w := h.arguments he site n []
  split
  · rename_i t ht
    refine h.bind (h.look w' _) fun cdr w hw => ?_
    cases hw
    exact h.seq (h.macroArguments site.room hcar ht) fun args w =>
      h.seq (h.expand he site args t w) fun expansion w => he.eval tail site expansion w
  · split
    · exact h.seq (h.look w' _) fun cdr w => h.seq (h.specialArguments site cdr w) fun args w =>
        h.special he _ n tail site args w
    · refine Closed.ite (h.answer (h.memberForm he n site r s w')) (Closed.ite ?_ ?_)
      · exact h.seq (h.look w' _) fun cdr w => h.seq (hargs cdr w) fun args w =>
          h.answer (h.ofKeyword w s args)
      · exact h.seq (h.lookup w' _ _) fun f w => h.callHead he n tail site r (.sym s) f w

theorem form (n : Nat) (tail : Bool) (site : Site) (r : CellRef) (w : World) :
    P (e.form n tail site r) w := by
  refine h.bind (h.look w _) fun head w' hw => ?_
  obtain ⟨rfl, rfl⟩ : head = (w.cell r).car ∧ w' = w := by
    cases hw
    exact ⟨rfl, rfl⟩
  split
  · rename_i s hs
    exact h.symbolForm he n tail site hs
  · exact h.seq (h.value he site _ w') fun f w => h.callHead he n tail site r _ f w

theorem any (n : Nat) (tail : Bool) (site : Site) (v : Value) (w : World) :
    P (e.any n tail site v) w := by
  cases v with
  | cell r =>
    exact h.seq (h.deeper site w) fun inner w => h.seq (h.look w _) fun pos w =>
      h.placed pos (h.form he n tail inner r w)
  | sym s => exact Closed.ite (h.pure _ w) (h.answer (h.lookup w _ s))
  | vector r =>
    exact h.seq (h.deeper site w) fun inner w =>
      h.seq (h.mapVectorAt (h.value he inner) r n 0 [] w) fun _ w => h.answer (h.vector w _)
  | map r =>
    exact h.seq (h.deeper site w) fun inner w => h.answer (h.mapEntries (h.value he inner) r w)
  | _ => exact h.pure _ w

omit he

/-- What every part of an evaluation has, the evaluator has. -/
theorem evaluator (n : Nat) : (evaluator n).Has P := by
  induction n with
  | zero =>
    exact ⟨fun _ _ _ w => h.stop .endless w (by simp), fun _ _ _ w => h.stop .endless w (by simp)⟩
  | succ n ih =>
    exact ⟨fun tail site v w => h.any ih n tail site v w,
      fun site f args w => h.callBack ih n site f args w⟩

theorem evaluate (n : Nat) (site : Site) (v : Value) (w : World) :
    P (TemplateLisp.evaluate n site v) w :=
  h.seq ((h.evaluator n).eval true site v w) fun a w => h.complete (h.evaluator n) site n a w

end

end Run.Composable

end TemplateLisp
