import TemplateLisp.Eval.Eval
import TemplateLisp.Proofs.StepOrder

/-!
# More fuel never changes an evaluation that ends

`eval` and `call` are bounded by fuel, and so is every loop inside them. `evaluator_below` says that
an evaluator lies below each one with more fuel: an evaluation with little fuel runs out of it, or
does what it does with more.

Everything outside of tail position is compared by `Run.Below` alone. What a form does in tail
position is handed on by `if`, `cond`, `let`, `progn`, `and`, `or` and macro calls down to a value
or a call, and nothing in between looks at it. `Evaluator.Correspondence` collects what a relation
between the answers of two evaluations must be closed under for that to carry it along, and
`Evaluator.Correspondence.any` carries it through one level of an evaluation, once for all such
relations. The order itself is one of them (`Evaluator.Below.correspondence`).
-/

namespace TemplateLisp

open Run (Below)

/-! ## Outside of tail position -/

/-- Everything that one evaluator does lies below what the other does. -/
structure Evaluator.Below (e e' : Evaluator) : Prop where
  eval : ∀ tail site v, Run.Below (e.eval tail site v) (e'.eval tail site v)
  call : ∀ site, Caller.Below (e.call site) (e'.call site)

namespace Evaluator.Below

section
variable {e e' : Evaluator} (h : e.Below e') {n m : Nat} (hnm : n ≤ m)
include h

theorem value (site : Site) (v : Value) : Run.Below (e.value site v) (e'.value site v) :=
  .bind (h.eval false site v) fun _ => .refl _

theorem each (site : Site) (vs : List Value) : Run.Below (e.each site vs) (e'.each site vs) := by
  induction vs with
  | nil => exact .refl _
  | cons v vs ih => exact .bind (.map _ (h.value site v)) fun _ => ih

theorem expand (site : Site) (args : List Value) (t : Transformer) :
    Run.Below (e.expand site args t) (e'.expand site args t) := by
  cases t with
  | builtin m => exact .refl _
  | closure r => exact .bind (.refl _) fun c => .bind (.refl _) fun env => h.value _ c.body

theorem callBuiltin [Host] (site : Site) (b : Builtin) (args : List Value) :
    Run.Below (e.callBuiltin site b args) (e'.callBuiltin site b args) :=
  .bind (.refl _) fun inner => .tryCatch (Builtin.run_below (h.call inner) b args) rfl

theorem hostCaller (site : Site) (env : FrameRef) :
    Caller.Below (e.hostCaller site env) (e'.hostCaller site env) :=
  fun f args => .bind (.refl _) fun _ => h.call _ f args

include hnm

theorem complete (site : Site) (a : Answer true) :
    Run.Below (e.complete site n a) (e'.complete site m a) := by
  induction n generalizing m a with
  | zero =>
    cases a with
    | value v => cases m <;> exact .refl _
    | call r env => exact .endless _
  | succ n ih =>
    obtain ⟨m, rfl⟩ : ∃ k, m = k + 1 := ⟨m - 1, by omega⟩
    cases a with
    | value v => exact .refl _
    | call r env =>
      exact .bind (.refl _) fun body => .bind (h.eval true _ body) fun a => ih (by omega) a

theorem arguments (site : Site) (found : List Value) (v : Value) :
    Run.Below (e.arguments site n found v) (e'.arguments site m found v) := by
  induction n generalizing m found v with
  | zero => exact .endless _
  | succ n ih =>
    obtain ⟨m, rfl⟩ : ∃ k, m = k + 1 := ⟨m - 1, by omega⟩
    cases v with
    | cell r =>
      exact .bind (.refl _) fun car => .bind (h.value site car) fun x => .bind (.refl _) fun cdr =>
        ih (by omega) (x :: found) cdr
    | _ => exact .refl _

end

end Evaluator.Below

namespace Run

theorem mapVectorAt_below {α : Type} {f f' : Value → Run α} (hf : ∀ v, Below (f v) (f' v))
    (r : VectorRef) {n m : Nat} (hnm : n ≤ m) (index : Nat) (found : List α) :
    Below (mapVectorAt f r n index found) (mapVectorAt f' r m index found) := by
  induction n generalizing m index found with
  | zero => exact .endless _
  | succ n ih =>
    obtain ⟨m, rfl⟩ : ∃ k, m = k + 1 := ⟨m - 1, by omega⟩
    refine .bind (.refl _) fun items => ?_
    split
    · exact .refl _
    · exact .bind (hf _) fun a => ih (by omega) _ _

theorem mapEntriesAt_below {f f' : Value → Run Value} (hf : ∀ v, Below (f v) (f' v)) (r : MapRef)
    (size left : Nat) (found : List (Value × Value)) :
    Below (mapEntriesAt f r size left found) (mapEntriesAt f' r size left found) := by
  induction left generalizing found with
  | zero => exact .refl _
  | succ left ih =>
    unfold mapEntriesAt
    refine .bind (.refl _) fun es => .ite (.refl _) ?_
    dsimp only
    split
    · exact .refl _
    · exact .bind (hf _) fun x => ih _

theorem mapEntries_below {f f' : Value → Run Value} (hf : ∀ v, Below (f v) (f' v)) (r : MapRef) :
    Below (mapEntries f r) (mapEntries f' r) :=
  .bind (.refl _) fun es => .bind (mapEntriesAt_below hf r es.length es.length []) fun _ => .refl _

end Run

section
variable {e e' : Evaluator} (h : e.Below e') {n m : Nat} (hnm : n ≤ m)
include h

namespace Quasiquote

theorem element_below (site : Site) (nesting : Nat) {copy copy' : Value → Run Value}
    (hcopy : ∀ v, Below (copy v) (copy' v)) (v : Value) :
    Below (element e site nesting copy v) (element e' site nesting copy' v) := by
  refine .bind (.refl _) fun found => ?_
  cases nesting with
  | zero =>
    cases found with
    | none => exact .bind (hcopy v) fun _ => .refl _
    | some x => exact .bind (h.value site x) fun _ => .refl _
  | succ d => exact .bind (hcopy v) fun _ => .refl _

include hnm

theorem elements_below (site : Site) (nesting : Nat) {copy copy' : Value → Run Value}
    (hcopy : ∀ v, Below (copy v) (copy' v)) (r : VectorRef) :
    Below (elements e site nesting copy n r) (elements e' site nesting copy' m r) :=
  .bind (Run.mapVectorAt_below (element_below h site nesting hcopy) r hnm 0 []) fun _ => .refl _

theorem spine_below (site : Site) (nesting : Nat) {copy copy' : Value → Run Value}
    (hcopy : ∀ v, Below (copy v) (copy' v)) (first : CellRef) (found : List Value) (v : Value) :
    Below (spine e site nesting copy first n found v)
      (spine e' site nesting copy' first m found v) := by
  induction n generalizing m found v with
  | zero => exact .endless _
  | succ n ih =>
    obtain ⟨m, rfl⟩ : ∃ k, m = k + 1 := ⟨m - 1, by omega⟩
    cases v with
    | cell r =>
      refine .bind (.refl _) fun hole => .ite (.bind (hcopy _) fun _ => .refl _) ?_
      exact .bind (.refl _) fun car => .bind (element_below h site nesting hcopy car) fun new =>
        .bind (.refl _) fun cdr => ih (by omega) _ cdr
    | nil => exact .refl _
    | _ => exact .bind (hcopy _) fun _ => .refl _

theorem copy_below (site : Site) (nesting : Nat) (v : Value) :
    Below (copy e n site nesting v) (copy e' m site nesting v) := by
  induction n generalizing m site nesting v with
  | zero => exact .endless _
  | succ n ih =>
    obtain ⟨m, rfl⟩ : ∃ k, m = k + 1 := ⟨m - 1, by omega⟩
    have hle : n ≤ m := by omega
    cases v with
    | cell r =>
      refine .bind (.refl _) fun inner => .bind (.refl _) fun hole => ?_
      cases hole with
      | some x =>
        cases nesting with
        | zero => exact h.value inner x
        | succ d => exact .bind (ih hle inner d x) fun _ => .refl _
      | none =>
        refine .bind (.refl _) fun splice => ?_
        cases splice with
        | some x =>
          cases nesting with
          | zero => exact .refl _
          | succ d => exact .bind (ih hle inner d x) fun _ => .refl _
        | none =>
          refine .bind (.refl _) fun nested => ?_
          cases nested with
          | some x => exact .bind (ih hle inner (nesting + 1) x) fun _ => .refl _
          | none => exact spine_below h hle inner nesting (ih hle inner nesting) r [] _
    | vector r =>
      exact .bind (.refl _) fun inner =>
        .bind (elements_below h hle inner nesting (ih hle inner nesting) r) fun _ => .refl _
    | map r =>
      exact .bind (.refl _) fun inner => Run.mapEntries_below (ih hle inner nesting) r
    | _ => exact .refl _

end Quasiquote

namespace Evaluator.Below

theorem turn (site : Site) (name : Symbol) (body : List Value) (v : Value) :
    Run.Below (e.turn site name body v) (e'.turn site name body v) :=
  .bind (.refl _) fun env => h.each { site with env := env } body

theorem countedTurns (site : Site) (name : Symbol) (body : List Value) (left i : Nat) :
    Run.Below (e.countedTurns site name body left i) (e'.countedTurns site name body left i) := by
  induction left generalizing i with
  | zero => exact .refl _
  | succ left ih => exact .bind (h.turn site name body _) fun _ => ih (i + 1)

theorem loopResult (site : Site) (spec : LoopSpec) :
    Run.Below (e.loopResult site spec) (e'.loopResult site spec) := by
  unfold Evaluator.loopResult
  split
  · exact .refl _
  · exact h.value site _

theorem countLoop (site : Site) (specForm : Value) (body : List Value) :
    Run.Below (e.countLoop site specForm body) (e'.countLoop site specForm body) := by
  refine .bind (.refl _) fun spec => .bind (h.value site spec.source) fun count => ?_
  split
  · exact .bind (h.countedTurns site _ body _ 0) fun _ => h.loopResult site spec
  · exact .refl _

include hnm

theorem turns [Host] (site : Site) (name : Symbol) (body : List Value) (c : Cursor) :
    Run.Below (e.turns site name body n c) (e'.turns site name body m c) := by
  induction n generalizing m c with
  | zero => exact .endless _
  | succ n ih =>
    obtain ⟨m, rfl⟩ : ∃ k, m = k + 1 := ⟨m - 1, by omega⟩
    refine .bind (.refl _) fun next => ?_
    cases next with
    | none => exact .refl _
    | some p => exact .bind (h.turn site name body p.1) fun _ => ih (by omega) p.2

theorem sequenceLoop [Host] (site : Site) (form : String) (listsOnly : Bool) (specForm : Value)
    (body : List Value) :
    Run.Below (e.sequenceLoop n site form listsOnly specForm body)
      (e'.sequenceLoop m site form listsOnly specForm body) := by
  refine .bind (.refl _) fun spec => .bind (h.value site spec.source) fun source => ?_
  refine .ite (.bind (.refl _) fun _ => .bind (.refl _) fun _ => ?_) ?_
  all_goals exact .bind (.refl _) fun c => .bind (h.turns hnm site _ body c) fun _ =>
    h.loopResult site spec

theorem whileLoop (site : Site) (test : Value) (body : List Value) :
    Run.Below (e.whileLoop site test body n) (e'.whileLoop site test body m) := by
  induction n generalizing m with
  | zero => exact .endless _
  | succ n ih =>
    obtain ⟨m, rfl⟩ : ∃ k, m = k + 1 := ⟨m - 1, by omega⟩
    exact .bind (h.value site test) fun _ =>
      .ite (.bind (h.each site body) fun _ => ih (by omega)) (.refl _)

end Evaluator.Below

namespace SpecialForm

theorem assignPairs_below (site : Site) (last : Value) (vs : List Value) :
    Below (assignPairs e site last vs) (assignPairs e' site last vs) := by
  fun_induction assignPairs e site last vs with
  | case1 last s form rest hs => simp only [assignPairs, hs]; exact .refl _
  | case2 last s form rest hs ih =>
    simp only [assignPairs, hs]
    exact .bind (h.value site form) fun v => .bind (.refl _) fun _ => ih v
  | case3 last target _ _ hne => rw [assignPairs.eq_2 _ _ _ _ _ _ hne]
  | case4 last vs h₁ h₂ => rw [assignPairs.eq_3 _ _ _ _ h₁ h₂]

theorem assign_below (site : Site) (args : List Value) :
    Below (assign e site args) (assign e' site args) :=
  .ite (.refl _) (assignPairs_below h site .nil args)

theorem bindOne_below (site : Site) (binding : Value) :
    Below (bindOne e site binding) (bindOne e' site binding) := by
  unfold bindOne
  cases binding with
  | cell r =>
    refine .bind (.refl _) fun car => ?_
    cases car with
    | sym s =>
      refine .bind (.refl _) fun items => ?_
      split
      · exact .refl _
      · exact .bind (h.value site _) fun _ => .refl _
      · exact .refl _
    | _ => exact .refl _
  | _ => exact .refl _

include hnm

theorem bindAll_below [Host] (site : Site) (c : Cursor) :
    Below (bindAll e site n c) (bindAll e' site m c) := by
  induction n generalizing m c with
  | zero => exact .endless _
  | succ n ih =>
    obtain ⟨m, rfl⟩ : ∃ k, m = k + 1 := ⟨m - 1, by omega⟩
    refine .bind (.refl _) fun next => ?_
    cases next with
    | none => exact .refl _
    | some p => exact .bind (bindOne_below h site p.1) fun _ => ih (by omega) p.2

theorem loop_below [Host] (site : Site) (form role : String) (listsOnly : Bool)
    (args : List Value) :
    Below (loop e n site form role listsOnly args) (loop e' m site form role listsOnly args) := by
  cases args with
  | nil => exact .refl _
  | cons spec forms => exact h.sequenceLoop hnm site form listsOnly spec forms

end SpecialForm

end

/-! ## In tail position -/

/-- A relation between the answers of two evaluations that differ in how much fuel they have and in
whether they stand in tail position, for evaluations at the sites `At`. It holds where both give the
same value or stop alike, it passes through whatever the two do alike before (`bind`, `deeper`) and
around (`placed`) it, and it holds of the two things that tail position is handed on to: the
evaluation of a form and the call of a closure. -/
structure Evaluator.Correspondence (e e' : Evaluator) (n m : Nat) {tail tail' : Bool}
    (At : Site → Prop) (R : Run (Answer tail) → Run (Answer tail') → Prop) : Prop where
  below : e.Below e'
  fuel_le : n ≤ m
  value : ∀ v, R (pure (.value v)) (pure (.value v))
  stop : ∀ s, R (throw s) (throw s)
  bind : ∀ {α : Type} {x y : Run α} {f : α → Run (Answer tail)} {g : α → Run (Answer tail')},
    x.Below y → (∀ a, R (f a) (g a)) → R (x >>= f) (y >>= g)
  placed : ∀ {x y} (pos : Option Pos), R x y → R (Run.placed pos x) (Run.placed pos y)
  env : ∀ {site} (env : FrameRef), At site → At { site with env := env }
  deeper : ∀ {site} {f : Site → Run (Answer tail)} {g : Site → Run (Answer tail')}, At site →
    (∀ inner, At inner → R (f inner) (g inner)) → R (site.deeper >>= f) (site.deeper >>= g)
  eval : ∀ {site} (v : Value), At site → R (e.eval tail site v) (e'.eval tail' site v)
  finish : ∀ {site} (r : ClosureRef) (env : FrameRef), At site →
    R (e.finish n site r env tail) (e'.finish m site r env tail')

namespace Evaluator.Correspondence

section
variable {e e' : Evaluator} {n m : Nat} {tail tail' : Bool} {At : Site → Prop}
  {R : Run (Answer tail) → Run (Answer tail') → Prop} (h : Correspondence e e' n m At R)
include h

theorem answer {x y : Run Value} (hxy : x.Below y) :
    R (SpecialForm.answer x) (SpecialForm.answer y) := h.bind hxy fun v => h.value v

omit h in
theorem ite {c : Prop} [Decidable c] {x y : Run (Answer tail)} {x' y' : Run (Answer tail')}
    (hx : R x x') (hy : R y y') : R (if c then x else y) (if c then x' else y') := by
  split
  · exact hx
  · exact hy

/-- A stop whose message has to be made first. -/
theorem stopAfter {α : Type} (x : Run α) (f : α → Fault) :
    R (x >>= fun a => Run.fail (f a)) (x >>= fun a => Run.fail (f a)) :=
  h.bind (.refl _) fun _ => h.stop _

variable {site : Site} (hsite : At site)
include hsite

theorem sequence (vs : List Value) : R (e.sequence tail site vs) (e'.sequence tail' site vs) := by
  induction vs with
  | nil => exact h.value .nil
  | cons v vs ih =>
    cases vs with
    | nil => exact h.eval v hsite
    | cons u vs => exact h.bind (.map _ (h.below.value site v)) fun _ => ih

theorem bindLocals [Host] (args : List Value) :
    R (SpecialForm.bindLocals e n tail site args)
      (SpecialForm.bindLocals e' m tail' site args) := by
  cases args with
  | nil => exact h.stop _
  | cons bindings forms =>
    refine ite (h.bind (.refl _) fun env => h.bind (.refl _) fun c => ?_) (h.stopAfter _ _)
    exact h.bind (SpecialForm.bindAll_below h.below h.fuel_le _ c) fun _ =>
      h.sequence (h.env env hsite) forms

theorem branch (args : List Value) :
    R (SpecialForm.branch e tail site args) (SpecialForm.branch e' tail' site args) := by
  match args with
  | [test, yes] =>
    exact h.bind (h.below.value site test) fun v => ite (h.eval yes hsite) (h.value .nil)
  | [test, yes, no] =>
    exact h.bind (h.below.value site test) fun v => ite (h.eval yes hsite) (h.eval no hsite)
  | [] => exact h.stop _
  | [_] => exact h.stop _
  | _ :: _ :: _ :: _ :: _ => exact h.stop _

theorem clauses (args : List Value) :
    R (SpecialForm.clauses e tail site args) (SpecialForm.clauses e' tail' site args) := by
  induction args with
  | nil => exact h.value .nil
  | cons clause rest ih =>
    cases clause with
    | cell r =>
      refine h.bind (.refl _) fun items => ?_
      cases items with
      | nil => exact ih
      | cons test forms =>
        exact h.bind (h.below.value site test) fun v =>
          ite ih (ite (h.value v) (h.sequence hsite forms))
    | _ => exact h.stopAfter _ _

theorem operands (stopAt : Bool) (none : Value) (args : List Value) :
    R (SpecialForm.operands e tail site stopAt none args)
      (SpecialForm.operands e' tail' site stopAt none args) := by
  induction args with
  | nil => exact h.value none
  | cons v vs ih =>
    cases vs with
    | nil => exact h.eval v hsite
    | cons u vs =>
      exact h.bind (h.below.value site v) fun x => ite (h.value x) ih

theorem special [Host] (f : SpecialForm) (args : List Value) :
    R (f.run e n tail site args) (f.run e' m tail' site args) := by
  cases f with
  | setq => exact h.answer (SpecialForm.assign_below h.below site args)
  | progn => exact h.sequence hsite args
  | definesMacro | fn | defn => exact h.answer (.refl _)
  | quote =>
    match args with
    | [v] => exact h.value v
    | [] => exact h.stop _
    | _ :: _ :: _ => exact h.stop _
  | quasiquote =>
    match args with
    | [v] => exact h.answer (Quasiquote.copy_below h.below h.fuel_le site 0 v)
    | [] => exact h.stop _
    | _ :: _ :: _ => exact h.stop _
  | unquote | unquoteSplicing => exact h.stop _
  | bindLocally => exact h.bindLocals hsite args
  | choose => exact h.branch hsite args
  | cond => exact h.clauses hsite args
  | conjunction | disjunction => exact h.operands hsite _ _ args
  | dolist | doseq => exact h.answer (SpecialForm.loop_below h.below h.fuel_le site _ _ _ args)
  | dotimes =>
    cases args with
    | nil => exact h.stop _
    | cons spec forms => exact h.answer (h.below.countLoop site spec forms)
  | loopWhile =>
    cases args with
    | nil => exact h.stop _
    | cons test forms =>
      exact h.bind (h.below.whileLoop h.fuel_le site test forms) fun _ => h.value .nil
  | leave =>
    match args with
    | [] => exact h.stop _
    | [v] => exact h.bind (h.below.value site v) fun _ => h.stop _
    | _ :: _ :: _ => exact h.stop _

theorem apply [Host] (f : Value) (args : List Value) :
    R (e.apply n tail site f args) (e'.apply m tail' site f args) := by
  cases f with
  | closure r =>
    exact h.bind (.refl _) fun c => h.bind (.refl _) fun env => h.finish r env hsite
  | builtin b => exact h.answer (h.below.callBuiltin site b args)
  | hostFunction g name =>
    exact h.answer
      (.tryCatch (Host.callFunction_below (h.below.hostCaller site) site.env g args) rfl)
  | sym s => exact ite (h.answer (.refl _)) (h.stop _)
  | _ => exact h.stopAfter _ _

theorem callHead [Host] (r : CellRef) (head f : Value) :
    R (e.callHead n tail site r head f) (e'.callHead m tail' site r head f) := by
  refine ite (h.bind (.refl _) fun forms => ?_) (h.bind (.refl _) fun _ => h.stopAfter _ _)
  exact h.bind (h.below.arguments h.fuel_le site [] forms) fun args => h.apply hsite f args

theorem symbolForm [Host] (r : CellRef) (s : Symbol) :
    R (e.symbolForm n tail site r s) (e'.symbolForm m tail' site r s) := by
  refine h.bind (.refl _) fun transformer => ?_
  have hargs : ∀ cdr, Run.Below (e.arguments site n [] cdr) (e'.arguments site m [] cdr) :=
    fun cdr => h.below.arguments h.fuel_le site [] cdr
  cases transformer with
  | some t =>
    exact h.bind (.refl _) fun cdr => h.bind (.refl _) fun args =>
      h.bind (h.below.expand site args t) fun expansion => h.eval expansion hsite
  | none =>
    dsimp only
    split
    · exact h.bind (.refl _) fun cdr => h.bind (.refl _) fun args => h.special hsite _ args
    · refine ite (h.answer (.bind (.refl _) fun cdr => .bind (hargs cdr) fun args => ?_)) ?_
      · split
        · exact .refl _
        · exact Run.member_below (h.below.hostCaller site) _ _ _
      exact ite (h.bind (.refl _) fun cdr => h.bind (hargs cdr) fun args => h.answer (.refl _))
        (h.bind (.refl _) fun f => h.callHead hsite r (.sym s) f)

theorem form [Host] (r : CellRef) : R (e.form n tail site r) (e'.form m tail' site r) := by
  refine h.bind (.refl _) fun head => ?_
  cases head with
  | sym s => exact h.symbolForm hsite r s
  | _ => exact h.bind (h.below.value site _) fun f => h.callHead hsite r _ f

/-- One level of an evaluation carries the correspondence along. -/
theorem any [Host] (v : Value) : R (e.any n tail site v) (e'.any m tail' site v) := by
  cases v with
  | cell r =>
    exact h.deeper hsite fun inner hinner =>
      h.bind (.refl _) fun pos => h.placed pos (h.form hinner r)
  | sym s => exact ite (h.value _) (h.answer (.refl _))
  | vector r =>
    exact h.deeper hsite fun inner _ =>
      h.bind (Run.mapVectorAt_below (h.below.value inner) r h.fuel_le 0 []) fun _ =>
        h.answer (.refl _)
  | map r =>
    exact h.deeper hsite fun inner _ => h.answer (Run.mapEntries_below (h.below.value inner) r)
  | _ => exact h.value _

end

end Evaluator.Correspondence

/-! ## The whole evaluator -/

/-- The order of runs is a correspondence. -/
theorem Evaluator.Below.correspondence {e e' : Evaluator} (h : e.Below e') {n m : Nat}
    (hnm : n ≤ m) (tail : Bool) :
    Correspondence e e' n m (fun _ => True) (@Run.Below (Answer tail)) where
  below := h
  fuel_le := hnm
  value _ := .refl _
  stop _ := .refl _
  bind := .bind
  placed := .placed
  env _ _ := trivial
  deeper _ hfg := .bind (.refl _) fun inner => hfg inner trivial
  eval v _ := h.eval tail _ v
  finish r env _ := by
    cases tail with
    | true => exact .refl _
    | false => exact .bind (h.complete hnm _ _) fun _ => .refl _

/-- One call from a built-in function. -/
theorem Evaluator.Below.callBack [Host] {e e' : Evaluator} (h : e.Below e')
    {n m : Nat} (hnm : n ≤ m) (site : Site) (f : Value) (args : List Value) :
    Run.Below (e.callBack n site f args) (e'.callBack m site f args) := by
  have happly : ∀ site, Run.Below (e.apply n false site f args) (e'.apply m false site f args) :=
    fun site => (h.correspondence hnm false).apply trivial f args
  unfold Evaluator.callBack
  split
  all_goals exact .bind (.refl _) fun table => .bind (happly _) fun _ => .refl _

/-- More fuel never changes an evaluation that ends, nor a call. -/
theorem evaluator_below [Host] {n m : Nat} (hnm : n ≤ m) : (evaluator n).Below (evaluator m) := by
  induction n generalizing m with
  | zero => exact ⟨fun _ _ _ => .endless _, fun _ _ _ => .endless _⟩
  | succ n ih =>
    obtain ⟨m, rfl⟩ : ∃ k, m = k + 1 := ⟨m - 1, by omega⟩
    have hle : n ≤ m := by omega
    refine ⟨fun tail site v => ?_, fun site f args => ?_⟩
    · exact ((ih hle).correspondence hle tail).any trivial v
    · exact (ih hle).callBack hle site f args

/-- More fuel never changes an evaluation to completion that ends. -/
theorem evaluate_below [Host] {n m : Nat} (hnm : n ≤ m) (site : Site) (v : Value) :
    Run.Below (evaluate n site v) (evaluate m site v) :=
  .bind ((evaluator_below hnm).eval true site v) fun a => (evaluator_below hnm).complete hnm site a

/-! ## What a bounded run comes to -/

namespace Run

section
variable {α : Type}

/-- The outcome of a run for which there is enough fuel: with more fuel it stays what it is, and it
is not that the fuel ran out. -/
def ComesTo (x : Nat → Run α) (w : World) (r : EStateM.Result Stop World α) : Prop :=
  (∀ w', r ≠ .error .endless w') ∧ ∃ n, ∀ m, n ≤ m → (x m).run w = r

/-- With enough fuel the run ends. Where nesting has no bound, the only walks that find it too deep
are those that go round a cycle of data, so `Stop.tooDeep` is no end. -/
def Terminates (x : Nat → Run α) (w : World) : Prop :=
  ∃ r, ComesTo x w r ∧ ∀ w', r ≠ .error .tooDeep w'

theorem ComesTo.unique {x : Nat → Run α} {w : World} {r r' : EStateM.Result Stop World α}
    (h : ComesTo x w r) (h' : ComesTo x w r') : r = r' := by
  obtain ⟨-, n, hn⟩ := h
  obtain ⟨-, m, hm⟩ := h'
  rw [← hn (max n m) (Nat.le_max_left n m), hm (max n m) (Nat.le_max_right n m)]

/-- What a run comes to, every run above it comes to. -/
theorem ComesTo.of_below {x y : Nat → Run α} {w : World} {r : EStateM.Result Stop World α}
    (h : ComesTo x w r) (bound : Nat → Nat) (hxy : ∀ n, Below (x n) (y (bound n)))
    (hy : ∀ {n m}, n ≤ m → Below (y n) (y m)) : ComesTo y w r := by
  obtain ⟨hr, n, hn⟩ := h
  refine ⟨hr, bound n, fun m hm => ?_⟩
  rcases (hxy n).trans (hy hm) w with ⟨w', hx⟩ | hx
  · exact absurd ((hn n (Nat.le_refl n)).symm.trans hx) (hr w')
  · exact hx.symm.trans (hn n (Nat.le_refl n))

/-- A run that needs no fuel. -/
theorem ComesTo.of_forall {x : Nat → Run α} {w w' : World} {a : α}
    (hx : ∀ n, (x n).run w = .ok a w') : ComesTo x w (.ok a w') := ⟨nofun, 0, fun n _ => hx n⟩

/-- What comes out with some fuel does not depend on what is done without any. -/
theorem comesTo_succ {x : Nat → Run α} {w : World} {r : EStateM.Result Stop World α} :
    ComesTo (fun n => x (n + 1)) w r ↔ ComesTo x w r := by
  constructor
  · rintro ⟨hr, n, hn⟩
    refine ⟨hr, n + 1, fun m hm => ?_⟩
    obtain ⟨m, rfl⟩ : ∃ m', m = m' + 1 := ⟨m - 1, by omega⟩
    exact hn m (by omega)
  · rintro ⟨hr, n, hn⟩
    exact ⟨hr, n, fun m hm => hn (m + 1) (by omega)⟩

/-- A run that gives something and is followed by another. -/
theorem ComesTo.bind {β : Type} {x : Nat → Run α} {f : Nat → α → Run β} {w w₁ : World} {a : α}
    {r : EStateM.Result Stop World β} (hx : ComesTo x w (.ok a w₁))
    (hf : ComesTo (fun n => f n a) w₁ r) : ComesTo (fun n => x n >>= f n) w r := by
  obtain ⟨-, n, hn⟩ := hx
  obtain ⟨hr, k, hk⟩ := hf
  refine ⟨hr, n + k, fun m hm => ?_⟩
  rw [EStateM.run_bind, hn m (by omega)]
  exact hk m (by omega)

/-- A run that stops is not followed by another. -/
theorem ComesTo.bind_error {β : Type} {x : Nat → Run α} {w w' : World} {s : Stop}
    (hx : ComesTo x w (.error s w')) (f : Nat → α → Run β) :
    ComesTo (fun n => x n >>= f n) w (.error s w') := by
  obtain ⟨hs, n, hn⟩ := hx
  refine ⟨fun w'' h => hs w'' (by cases h; rfl), n, fun m hm => ?_⟩
  rw [EStateM.run_bind, hn m hm]

end

end Run

end TemplateLisp
