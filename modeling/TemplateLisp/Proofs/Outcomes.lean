import TemplateLisp.Proofs.Accessors
import TemplateLisp.Proofs.TailContexts

/-!
# What evaluations come to

What a run comes to from a world is often what another run comes to from another world: a form comes
to what its expansion comes to, a call to what the body comes to, and a run of several parts, once
the first one has a value, to what is left of it. `Run.Matches` says so, for values and for stops
alike and up to the places of errors, and it also says that the one run has no end if the other has
none. This module has its rules: for a run and what follows it (`Run.Matches.bind`), and for each
kind of form where nesting is unbounded.
-/

namespace TemplateLisp

namespace Run

section
variable {α β : Type}

/-- With enough fuel the runs come to the outcome, up to the place of an error. -/
def Reaches (x : Nat → Run α) (w : World) (r : EStateM.Result Stop World α) : Prop :=
  ComesTo (fun n => (x n).unplaced) w r

/-- What the first runs come to from `w` is what the second come to from `w'`, up to the places of
errors. -/
def Matches (x : Nat → Run α) (w : World) (y : Nat → Run α) (w' : World) : Prop :=
  ∀ r, Reaches x w r ↔ Reaches y w' r

/-- More fuel never changes a run that ends. -/
def Rising (x : Nat → Run α) : Prop := ∀ ⦃n m : Nat⦄, n ≤ m → Below (x n) (x m)

variable {x y z : Nat → Run α} {w w' w'' w₁ : World} {a : α} {s : Stop}

theorem Rising.bind (hx : Rising x) {f : Nat → α → Run β} (hf : ∀ a, Rising fun n => f n a) :
    Rising fun n => x n >>= f n := fun _ _ h => .bind (hx h) fun a => hf a h

theorem Rising.ite {c : Prop} [Decidable c] (hx : Rising x) (hy : Rising y) :
    Rising fun n => if c then x n else y n := by
  split
  · exact hx
  · exact hy

theorem Rising.const (x : Run α) : Rising fun _ => x := fun _ _ _ => .refl x

theorem Rising.orHostFault (hx : Rising x) (name : String) :
    Rising fun n => Run.orHostFault name (x n) := fun _ _ h => .tryCatch (hx h) rfl

theorem rising_value [Host] (site : Site) (v : Value) : Rising fun n =>
    (evaluator n).value site v :=
  fun _ _ h => (evaluator_below h).value site v

theorem rising_call [Host] (site : Site) (f : Value) (args : List Value) :
    Rising fun n => TemplateLisp.call n site f args :=
      fun _ _ h => (evaluator_below h).call site f args

/-! ## Outcomes -/

theorem ComesTo.reaches (h : ComesTo x w (.ok a w')) : Reaches x w (.ok a w') := h.unplaced

theorem reaches_pure (a : α) (w : World) : Reaches (fun _ => pure a) w (.ok a w) :=
  have h : ComesTo (fun _ => (pure a : Run α)) w (.ok a w) := .of_forall fun _ => rfl
  h.reaches

theorem Reaches.comesTo (h : Reaches x w (.ok a w')) (hx : Rising x) : ComesTo x w (.ok a w') := by
  obtain ⟨r, hr, hsame⟩ := h.of_unplaced fun h => hx h
  cases r with
  | ok b w₁ =>
    cases hsame
    exact hr
  | error s w₁ => cases hsame

/-- What a run comes to is reported by the built-in function that it is a part of. -/
theorem reaches_orHostFault (hx : Rising x) (name : String) {r : EStateM.Result Stop World α} :
    Reaches (fun n => orHostFault name (x n)) w r ↔ ∃ r', Reaches x w r' ∧ r = reported name r' :=
  comesTo_orHostFault (fun h => hx h) name

theorem reaches_orHostFault_ok (hx : Rising x) (name : String) :
    Reaches (fun n => orHostFault name (x n)) w (.ok a w') ↔ Reaches x w (.ok a w') := by
  rw [reaches_orHostFault hx]
  refine ⟨fun ⟨r, hr, hsame⟩ => ?_, fun h => ⟨_, h, rfl⟩⟩
  cases r with
  | ok b w₁ =>
    cases hsame
    exact hr
  | error s w₁ => cases s <;> cases hsame

theorem Reaches.unique {r r' : EStateM.Result Stop World α} (h : Reaches x w r)
    (h' : Reaches x w r') :
    r = r' := ComesTo.unique h h'

theorem comesTo_bind_iff (hx : Rising x) {f : Nat → α → Run β} {r : EStateM.Result Stop World β} :
    ComesTo (fun n => x n >>= f n) w r ↔
      (∃ a w₁, ComesTo x w (.ok a w₁) ∧ ComesTo (fun n => f n a) w₁ r) ∨
        ∃ s w₁, ComesTo x w (.error s w₁) ∧ r = .error s w₁ := by
  constructor
  · rintro ⟨hr, n, hn⟩
    have hends : ∀ w', (x n).run w ≠ .error .endless w' := by
      intro w' hw
      refine hr w' ?_
      rw [← hn n (Nat.le_refl n), EStateM.run_bind, hw]
    have hsame (m : Nat) (hm : n ≤ m) : (x m).run w = (x n).run w := by
      rcases hx hm w with ⟨w', hw⟩ | hw
      · exact absurd hw (hends w')
      · exact hw.symm
    cases hrun : (x n).run w with
    | ok a w₁ =>
      refine .inl ⟨a, w₁, ⟨nofun, n, fun m hm => (hsame m hm).trans hrun⟩, hr, n, fun m hm => ?_⟩
      rw [← hn m hm, EStateM.run_bind, hsame m hm, hrun]
    | error s w₁ =>
      refine .inr ⟨s, w₁, ⟨fun w' hw => hends w' (hrun.trans hw), n,
        fun m hm => (hsame m hm).trans hrun⟩, ?_⟩
      rw [← hn n (Nat.le_refl n), EStateM.run_bind, hrun]
  · rintro (⟨a, w₁, hx, hf⟩ | ⟨s, w₁, hx, rfl⟩)
    · exact hx.bind hf
    · exact hx.bind_error f

/-- A run of two parts comes to what the second comes to, or it stops with the first. -/
theorem reaches_bind_iff (hx : Rising x) {f : Nat → α → Run β} {r : EStateM.Result Stop World β} :
    Reaches (fun n => x n >>= f n) w r ↔
      (∃ a w₁, Reaches x w (.ok a w₁) ∧ Reaches (fun n => f n a) w₁ r) ∨
        ∃ s w₁, Reaches x w (.error s w₁) ∧ r = .error s w₁ := by
  have hrising : Rising fun n => (x n).unplaced := fun _ _ h => (hx h).unplaced
  simp only [Reaches, unplaced_bind]
  exact comesTo_bind_iff hrising

theorem Reaches.bind (h : Reaches x w (.ok a w₁)) {f : Nat → α → Run β}
    {r : EStateM.Result Stop World β} (hx : Rising x) (hf : Reaches (fun n => f n a) w₁ r) :
    Reaches (fun n => x n >>= f n) w r := (reaches_bind_iff hx).2 (.inl ⟨a, w₁, h, hf⟩)

theorem Reaches.bind_error (h : Reaches x w (.error s w₁)) (hx : Rising x) (f : Nat → α → Run β) :
    Reaches (fun n => x n >>= f n) w (.error s w₁) := (reaches_bind_iff hx).2 (.inr ⟨s, w₁, h, rfl⟩)

/-- Behind a run without an end nothing is reached. -/
theorem not_reaches_bind (h : ∀ r, ¬ Reaches x w r) (hx : Rising x) (f : Nat → α → Run β)
    (r : EStateM.Result Stop World β) : ¬ Reaches (fun n => x n >>= f n) w r := by
  intro hr
  rcases (reaches_bind_iff hx).1 hr with ⟨a, w₁, hx, -⟩ | ⟨s, w₁, hx, -⟩
  · exact h _ hx
  · exact h _ hx

/-! ## Runs that come to the same -/

theorem Matches.symm (h : Matches x w y w') : Matches y w' x w := fun r => (h r).symm

theorem Matches.trans (h : Matches x w y w') (h' : Matches y w' z w'') : Matches x w z w'' :=
  fun r => (h r).trans (h' r)

/-- Runs that do the same from some fuel on come to the same. -/
theorem Matches.of_run (bound a b : Nat)
    (h : ∀ n, bound ≤ n → (x (n + a)).run w = (y (n + b)).run w') : Matches x w y w' :=
  fun _ => comesTo_congr bound a b fun n hn => by rw [run_unplaced, run_unplaced, h n hn]

/-- Runs that lie between each other come to the same. -/
theorem Matches.between (hx : Rising x) (hy : Rising y) (hxy : ∀ n, Below (x n) (y n))
    (hyx : ∀ n, Below (y n) (x (n + 1))) : Matches x w y w := by
  intro r
  constructor
  · exact fun h => h.of_below (fun n => n) (fun n => (hxy n).unplaced) fun h => (hy h).unplaced
  · exact fun h => h.of_below (fun n => n + 1) (fun n => (hyx n).unplaced) fun h => (hx h).unplaced

/-- Behind a run that has a value there is what is done with the value. -/
theorem Matches.after (h : ComesTo x w (.ok a w₁)) (f : Nat → α → Run β) :
    Matches (fun n => x n >>= f n) w (fun n => f n a) w₁ := by
  obtain ⟨-, n, hn⟩ := h
  refine .of_run n 0 0 fun m hm => ?_
  rw [EStateM.run_bind, hn (m + 0) hm]

/-- Runs that come to the same are followed by the same, if that comes to the same from where they
have led. -/
theorem Matches.bind (h : Matches x w y w') (hx : Rising x) (hy : Rising y) {f g : Nat → α → Run β}
    (hfg : ∀ a w₁, Reaches x w (.ok a w₁) → Matches (fun n => f n a) w₁ (fun n => g n a) w₁) :
    Matches (fun n => x n >>= f n) w (fun n => y n >>= g n) w' := by
  intro r
  rw [reaches_bind_iff hx, reaches_bind_iff hy]
  constructor
  · rintro (⟨a, w₁, ha, hr⟩ | ⟨s, w₁, hs, hr⟩)
    · exact .inl ⟨a, w₁, (h _).1 ha, (hfg a w₁ ha r).1 hr⟩
    · exact .inr ⟨s, w₁, (h _).1 hs, hr⟩
  · rintro (⟨a, w₁, ha, hr⟩ | ⟨s, w₁, hs, hr⟩)
    · exact .inl ⟨a, w₁, (h _).2 ha, (hfg a w₁ ((h _).2 ha) r).2 hr⟩
    · exact .inr ⟨s, w₁, (h _).2 hs, hr⟩

theorem Matches.refl (x : Nat → Run α) (w : World) : Matches x w x w := fun _ => Iff.rfl

theorem Matches.bind_left (h : Matches x w y w') (hx : Rising x) (hy : Rising y)
    (f : Nat → α → Run β) : Matches (fun n => x n >>= f n) w (fun n => y n >>= f n) w' :=
  h.bind hx hy fun a w₁ _ => .refl (fun n => f n a) w₁

end

end Run

namespace Site

open Run (Reaches Matches)

/-- The value of a form, with all amounts of fuel. -/
abbrev valueRuns [Host] (site : Site) (form : Value) (n : Nat) : Run Value :=
    (evaluator n).value site form

variable {site : Site} {w w₁ : World} {form : Value} {s : Symbol} {args : List Value}

/-! ## Forms -/

section
variable (hroom : site.room = .unbounded)
include hroom

/-- A form is evaluated at its site. -/
theorem matches_form [Host] (q : CellRef) : Matches (site.valueRuns (.cell q)) w
    (fun n => (evaluator n).form n false site q >>= fun a => pure a.get) w := by
  exact fun r => Run.comesTo_congr 0 1 0 fun n _ =>
    Site.run_unplaced_value (site.deeper_of_unbounded hroom) n q w

/-- A special form does with its arguments what is its own. -/
theorem matches_special [Host] {f : SpecialForm} (hform : w.ListOf form (.sym s :: args))
    (htransformer : w.transformer? site.macros s = none)
    (hname : SpecialForm.ofName? s.name = some f) :
    Matches (site.valueRuns form) w
      (fun n => f.run (evaluator n) n false site args >>= fun a => pure a.get) w := by
  obtain ⟨r, rfl, hcar, hargs⟩ := hform.cons_inv
  refine (matches_form hroom r).trans (.of_run 0 0 0 fun n _ => ?_)
  rw [EStateM.run_bind, (evaluator _).run_special hcar hargs htransformer hname, ← EStateM.run_bind]

/-- A call of a macro comes to what the expansion comes to. -/
theorem matches_expanded [Host] {m : BuiltinMacro} {expansion : Value}
    (hform : w.ListOf form (.sym s :: args))
    (htransformer : w.transformer? site.macros s = some (.builtin m))
    (hexpand : (m.expand site.room args).run w = .ok expansion w₁) :
    Matches (site.valueRuns form) w (site.valueRuns expansion) w₁ := by
  obtain ⟨r, rfl, hcar, hargs⟩ := hform.cons_inv
  refine (matches_form hroom r).trans (.of_run 0 0 0 fun n _ => ?_)
  rw [EStateM.run_bind, (evaluator _).run_expansion hcar hargs htransformer hexpand,
    ← EStateM.run_bind]
  rfl

/-! ### Choices -/

theorem matches_block [Host] {v : Value} (hw : site.Standard w)
    (hform : w.ListOf form [.sym ⟨"progn"⟩, v]) :
    Matches (site.valueRuns form) w (site.valueRuns v) w :=
  matches_special hroom hform (hw.transformer? _) rfl

theorem matches_choice [Host] {test yes : Value} (hw : site.Standard w)
    (hform : w.ListOf form [.sym ⟨"if"⟩, test, yes]) :
    Matches (site.valueRuns form) w (fun n => site.valueRuns test n >>= fun v =>
      if v.isTruthy then site.valueRuns yes n else pure .nil) w := by
  refine (matches_special hroom hform (hw.transformer? _) rfl).trans (.of_run 0 0 0 fun n _ => ?_)
  show ((_ >>= fun v => _) >>= fun a => _ : Run Value).run w = _
  rw [bind_assoc]
  refine congrFun (congrArg EStateM.run (bind_congr fun v => ?_)) w
  by_cases hv : v.isTruthy = true
  · simp only [if_pos hv]
    rfl
  · simp only [if_neg hv]
    rfl

theorem matches_conjunction [Host] {u v : Value} (hw : site.Standard w)
    (hform : w.ListOf form [.sym ⟨"and"⟩, u, v]) :
    Matches (site.valueRuns form) w (fun n => site.valueRuns u n >>= fun x =>
      if x.isTruthy then site.valueRuns v n else pure x) w := by
  refine (matches_special hroom hform (hw.transformer? _) rfl).trans (.of_run 0 0 0 fun n _ => ?_)
  show ((_ >>= fun x => _) >>= fun a => _ : Run Value).run w = _
  rw [bind_assoc]
  refine congrFun (congrArg EStateM.run (bind_congr fun x => ?_)) w
  cases x.isTruthy <;> rfl

/-- What `when` comes to, once it has been expanded into the world `w₁`. -/
theorem matches_when [Host] {test v : Value} (hw : site.Standard w)
    (hform : w.ListOf form [.sym ⟨"when"⟩, test, v]) : ∃ block w₁ expansion,
      (BuiltinMacro.whenTrue.expand site.room [test, v]).run w = .ok expansion w₁ ∧ w.Extends w₁ ∧
      (∀ w₂, (Reserve.none.since w w₁).Same w₁ w₂ → w₁.Grows w₂ →
        w₂.ListOf block [.sym ⟨"progn"⟩, v]) ∧
      Matches (site.valueRuns form) w (fun n => site.valueRuns test n >>= fun x =>
        if x.isTruthy then site.valueRuns block n else pure .nil) w₁ := by
  obtain ⟨expansion, w₁, hexpand⟩ : ∃ expansion w₁,
      (BuiltinMacro.whenTrue.expand site.room [test, v]).run w = .ok expansion w₁ := ⟨_, _, rfl⟩
  obtain ⟨block, hextends, hchoice, hblock⟩ := BuiltinMacro.expand_whenTrue hexpand
  refine ⟨block, w₁, expansion, hexpand, hextends, hblock, ?_⟩
  exact (matches_expanded hroom hform (hw.transformer? _) hexpand).trans
    (matches_choice hroom (hw.extends hextends) hchoice)

/-- What `unless` comes to where the test is a value that is found without doing anything. -/
theorem matches_unless [Host] {test v x : Value} (hw : site.Standard w)
    (hnot : site.Names w ⟨"not"⟩ (.builtin .not))
    (hform : w.ListOf form [.sym ⟨"unless"⟩, test, v])
    (htest : ∀ w₁, w.Extends w₁ → site.HasValue w₁ test x w₁) :
    ∃ block w₁ expansion, (BuiltinMacro.unlessTrue.expand site.room [test, v]).run w =
      .ok expansion w₁ ∧
      w.Extends w₁ ∧ w₁.ListOf block [.sym ⟨"progn"⟩, v] ∧ Matches (site.valueRuns form) w
        (fun n => if x.isTruthy then pure .nil else site.valueRuns block n) w₁ := by
  obtain ⟨expansion, w₁, hexpand⟩ : ∃ expansion w₁,
      (BuiltinMacro.unlessTrue.expand site.room [test, v]).run w = .ok expansion w₁ := ⟨_, _, rfl⟩
  obtain ⟨r, q, block, hextends, hchoice, hr, hq, hlater⟩ := BuiltinMacro.expand_unlessTrue hexpand
  obtain ⟨hend, hblock⟩ := hlater w₁ .refl (.refl _)
  have hvalue := htest w₁ hextends
  rw [← hq] at hvalue
  have hnegation := hasValue_not hroom (hnot.extends hextends) hr hvalue hend
  refine ⟨block, w₁, expansion, hexpand, hextends, hblock, ?_⟩
  refine ((matches_expanded hroom hform (hw.transformer? _) hexpand).trans
    (matches_choice hroom (hw.extends hextends) hchoice)).trans
      ((Matches.after hnegation _).trans ?_)
  cases hx : x.isTruthy
  · exact .refl _ _
  · exact .refl _ _

/-! ### Variables -/

/-- What `let` with one binding comes to: the value is bound in the new scope, if the list of
bindings still ends there. -/
theorem matches_let [Host] {q : CellRef} {e : Value} {forms : List Value} (hw : site.Standard w)
    (hform : w.ListOf form (.sym ⟨"let"⟩ :: .cell q :: forms))
    (hbinding : (site.openScope w).ListOf (w.cell q).car [.sym s, e])
    (hlast : ∀ v w₂, Reaches ((site.scope w).valueRuns e) (site.openScope w) (.ok v w₂) →
      (w₂.cell q).cdr = .nil) :
    Matches (site.valueRuns form) w (fun n => (site.scope w).valueRuns e n >>= fun v =>
      Run.define (site.scope w).env s v >>= fun _ =>
        (evaluator n).sequence false (site.scope w) forms >>= fun a => pure a.get)
      (site.openScope w) := by
  refine (matches_special hroom hform (hw.transformer? _) rfl).trans (.of_run 1 1 1 fun n hn => ?_)
  obtain ⟨k, rfl⟩ : ∃ k, n = k + 1 := ⟨n - 1, by omega⟩
  have hstart :
    (SpecialForm.bindLocals (evaluator (k + 2)) (k + 2) false site (.cell q :: forms)).run w =
      (SpecialForm.bindAll (evaluator (k + 2)) (site.scope w) (k + 2)
        (.list (.cell q) none) >>= fun _ =>
        (evaluator (k + 2)).sequence false (site.scope w) forms).run (site.openScope w) := rfl
  have hone :
    (SpecialForm.bindOne (evaluator (k + 2)) (site.scope w) ((site.openScope w).cell q).car).run
      (site.openScope w) = ((site.scope w).valueRuns e (k + 2) >>= fun v =>
        Run.define (site.scope w).env s v).run (site.openScope w) := run_bindOne_value hbinding _
  show (SpecialForm.bindLocals (evaluator (k + 2)) (k + 2) false site (.cell q :: forms)
    >>= _).run w = _
  rw [EStateM.run_bind, hstart, ← EStateM.run_bind, bind_assoc, EStateM.run_bind,
    run_bindAll_cons (r := q) rfl, ← EStateM.run_bind, bind_assoc, EStateM.run_bind, hone,
    ← EStateM.run_bind, bind_assoc, EStateM.run_bind, EStateM.run_bind]
  cases hvalue : ((evaluator (k + 2)).value (site.scope w) e).run (site.openScope w) with
  | error t w₂ => rfl
  | ok v w₂ =>
    have hcomes : Reaches ((site.scope w).valueRuns e) (site.openScope w) (.ok v w₂) :=
      Run.ComesTo.reaches (.of_run (fun h => Run.rising_value _ _ h) hvalue nofun)
    have hrest : (w₂.define (site.scope w).env s v).restOf (.cell q) (some q) = .nil :=
      hlast v w₂ hcomes
    have hend : (SpecialForm.bindAll (evaluator (k + 2)) (site.scope w) (k + 1)
        (.list (.cell q) (some q))).run (w₂.define (site.scope w).env s v) = .ok () _ :=
      run_bindAll_nil hrest (evaluator (k + 2)) k
    show EStateM.run (_ >>= _ : Run Value) (w₂.define (site.scope w).env s v) = _
    rw [EStateM.run_bind, hend]
    rfl

theorem hasValue_setq [Host] {e v : Value} (hw : site.Standard w)
    (hform : w.ListOf form [.sym ⟨"setq"⟩, .sym s, e]) (hs : s.isKeyword = false)
    (hvalue : site.HasValue w e v w₁) : site.HasValue w form v (w₁.assign site.env s v) := by
  have hassign :
    Run.ComesTo (fun n => SpecialForm.run (evaluator n) n false site .setq [.sym s, e] >>=
      fun a => pure a.get) w (.ok v (w₁.assign site.env s v)) := by
    have hrun (n : Nat) : (SpecialForm.run (evaluator n) n false site .setq [.sym s, e] >>=
        fun a => pure a.get) = (evaluator n).value site e >>= fun v =>
          Run.assign site.env s v >>= fun _ => pure v := by
      simp [SpecialForm.run, SpecialForm.assign, SpecialForm.assignPairs, SpecialForm.answer, hs,
        Answer.get]
    simp only [hrun]
    exact hvalue.bind (.of_forall fun _ => rfl)
  exact ((matches_special hroom hform (hw.transformer? _) rfl _).2 hassign.reaches).comesTo
    (Run.rising_value site form)

/-- A function that is made in a frame has the parameters that its list is accepted as. -/
theorem hasValue_function [Host] {params v : Value} {formals : ParameterList} (hw : site.Standard w)
    (hform : w.ListOf form [.sym ⟨"fn"⟩, params, v])
    (hformals : (ParameterList.ofValue site.room params).run w = .ok formals w) :
    site.HasValue w form (.closure (w.addClosure ⟨params, formals, v, site.env, none⟩).1)
      (w.addClosure ⟨params, formals, v, site.env, none⟩).2 := by
  have hmake : Run.ComesTo (fun n => SpecialForm.run (evaluator n) n false site .fn [params, v] >>=
      fun a => pure a.get) w (.ok (.closure (w.addClosure ⟨params, formals, v, site.env, none⟩).1)
        (w.addClosure ⟨params, formals, v, site.env, none⟩).2) := by
    refine .of_forall fun n => ?_
    simp only [SpecialForm.run, SpecialForm.function, SpecialForm.closure, SpecialForm.body,
      SpecialForm.answer, bind_assoc, pure_bind]
    rw [EStateM.run_bind, hformals]
    rfl
  exact ((matches_special hroom hform (hw.transformer? _) rfl _).2 hmake.reaches).comesTo
    (Run.rising_value site form)

/-! ### Loops -/

/-- A loop through a sequence makes its turns and has the value `nil`. -/
theorem matches_doseq [Host] {spec source v : Value} {name : Symbol}
    {body : List Value} {c : Cursor} (hw : site.Standard w)
    (hform : w.ListOf form (.sym ⟨"doseq"⟩ :: spec :: body))
    (hspec : w.ListOf spec [.sym name, source]) (hsource : site.HasValue w source v w)
    (hcursor : w.cursor? v = some c) : Matches (site.valueRuns form) w
      (fun n => (evaluator n).turns site name body n c >>= fun _ => pure .nil) w := by
  obtain ⟨-, k, hk⟩ := hsource
  refine (matches_special hroom hform (hw.transformer? _) rfl).trans (.of_run k 0 0 fun n hn => ?_)
  have hloop :
    (SpecialForm.loop (evaluator n) n site "doseq" "seq" false (spec :: body)).run w = _ :=
    SpecialForm.run_doseq (evaluator n) site body hspec (hk n hn)
  show ((SpecialForm.loop (evaluator n) n site "doseq" "seq" false (spec :: body) >>= _) >>= _ :
    Run Value).run w = _
  rw [bind_assoc, EStateM.run_bind, hloop, EStateM.run_bind, Run.run_cursor hcursor]
  dsimp only
  rw [EStateM.run_bind, EStateM.run_bind]
  dsimp only [Nat.add_zero]
  cases ((evaluator n).turns site name body n c).run w <;> rfl

end

/-- Each turn of a loop is followed by the turns for the elements behind. -/
theorem matches_turns [Host] {name : Symbol} {body : List Value} {c c' : Cursor} {x : Value}
    (hnext : (c.next site.room).run w = .ok (some (x, c')) w₁) :
    Matches (fun n => (evaluator n).turns site name body n c) w
      (fun n => (evaluator n).turn site name body x >>= fun _ =>
        (evaluator n).turns site name body n c') w₁ := by
  have hrising (c : Cursor) : Run.Rising fun n => (evaluator n).turns site name body n c :=
    fun _ _ h => (evaluator_below h).turns h site name body c
  have hturn : Run.Rising fun n => (evaluator n).turn site name body x :=
    fun _ _ h => (evaluator_below h).turn site name body x
  let later (n : Nat) : Run Unit := (evaluator (n + 1)).turn site name body x >>= fun _ =>
    (evaluator (n + 1)).turns site name body n c'
  have hstart : Matches (fun n => (evaluator n).turns site name body n c) w later w₁ := by
    refine .of_run 0 1 0 fun n _ => ?_
    show ((evaluator (n + 1)).turns site name body (n + 1) c).run w = _
    rw [Evaluator.turns, EStateM.run_bind, hnext]
    rfl
  have hlater : Run.Rising later := fun n m h => .bind (hturn (Nat.succ_le_succ h)) fun _ =>
    (evaluator_below (Nat.succ_le_succ h)).turns h site name body c'
  refine hstart.trans
    (.symm (.between (hturn.bind fun _ => hrising c') hlater (fun n => ?_) fun n => ?_))
  · exact .bind (hturn (Nat.le_succ n)) fun _ =>
      (evaluator_below (Nat.le_succ n)).turns (Nat.le_refl n) site name body c'
  · exact .bind (.refl _) fun _ =>
      (evaluator_below (Nat.le_refl _)).turns (Nat.le_succ n) site name body c'

/-- Behind the last element there are no turns. -/
theorem comesTo_turns_nil [Host] {name : Symbol} {body : List Value} {c : Cursor}
    (hnext : (c.next site.room).run w = .ok none w₁) :
    Run.ComesTo (fun n => (evaluator n).turns site name body n c) w (.ok () w₁) := by
  refine Run.comesTo_succ.1 (.of_forall fun n => ?_)
  rw [Evaluator.turns, EStateM.run_bind, hnext]
  rfl

theorem discard_bind {α β : Type} (x : Run α) (y : Run β) :
    (discard x >>= fun _ => y) = x >>= fun _ => y := by
  rw [discard, LawfulFunctor.map_const, Function.comp, map_eq_pure_bind, bind_assoc]
  simp only [pure_bind]

/-- A turn evaluates the body in a scope of its own. -/
theorem matches_turn [Host] {name : Symbol} {v x : Value} :
    Matches (fun n => (evaluator n).turn site name [v] x) w
      (fun n => (site.scope w).valueRuns v n >>= fun _ => pure ())
      (w.addFrame ⟨Bindings.ofNames [(name, x)], some site.env⟩).2 := by
  refine .of_run 0 0 0 fun n _ => ?_
  have hturn : ((evaluator n).turn site name [v] x).run w =
      (discard ((site.scope w).valueRuns v n) >>= fun _ => pure () : Run Unit).run
        (w.addFrame ⟨Bindings.ofNames [(name, x)], some site.env⟩).2 := rfl
  rw [Nat.add_zero, hturn, discard_bind]

/-- A block of two forms has the value of the second one. -/
theorem matches_sequence [Host] (u v : Value) :
    Matches (fun n => (evaluator n).sequence false site [u, v] >>= fun a => pure a.get) w
      (fun n => site.valueRuns u n >>= fun _ => site.valueRuns v n) w := by
  refine .of_run 0 0 0 fun n _ => ?_
  have hsequence : (evaluator n).sequence false site [u, v] =
      discard (site.valueRuns u n) >>= fun _ => (evaluator n).eval false site v := rfl
  rw [Nat.add_zero, hsequence, bind_assoc, discard_bind]
  rfl

/-! ## Calls -/

/-- Arguments are evaluated one after the other. -/
theorem matches_arguments [Host] (q : CellRef) :
    Matches (fun n => (evaluator n).arguments site n [] (.cell q)) w
      (fun n => site.valueRuns (w.cell q).car n >>= fun v => Run.look (fun w => (w.cell q).cdr) >>=
        fun rest => (evaluator n).arguments site n [] rest >>= fun args => pure (v :: args)) w := by
  let behind (n : Nat) (v : Value) : Run (List Value) := Run.look (fun w => (w.cell q).cdr) >>=
    fun rest => (evaluator n).arguments site n [] rest >>= fun args => pure (v :: args)
  let later (n : Nat) : Run (List Value) := site.valueRuns (w.cell q).car (n + 1) >>= fun v =>
    Run.look (fun w => (w.cell q).cdr) >>= fun rest =>
      (evaluator (n + 1)).arguments site n [] rest >>= fun args => pure (v :: args)
  have hstart : Matches (fun n => (evaluator n).arguments site n [] (.cell q)) w later w := by
    refine .of_run 0 1 0 fun n _ => ?_
    show ((evaluator (n + 1)).arguments site (n + 1) [] (.cell q)).run w = _
    rw [Evaluator.arguments_cell, Run.run_look_bind]
    refine congrFun (congrArg EStateM.run (bind_congr fun v => bind_congr fun rest => ?_)) w
    rw [Evaluator.arguments_found]
    rfl
  have hbelow {n m k : Nat} (hnm : n ≤ m) (hk : n ≤ k) (hkm : k ≤ m) (v rest : Value) :
      Run.Below ((evaluator n).arguments site n [] rest >>= fun args => pure (v :: args))
        ((evaluator m).arguments site k [] rest >>= fun args => pure (v :: args)) :=
    .bind ((evaluator_below hnm).arguments hk site [] rest) fun _ => .refl _
  have hvalue := Run.rising_value site (w.cell q).car
  have hbehind (v : Value) : Run.Rising fun n => behind n v :=
    fun n m h => .bind (.refl _) fun rest => hbelow h h (Nat.le_refl m) v rest
  have hlater : Run.Rising later := fun n m h => .bind (hvalue (Nat.succ_le_succ h)) fun v =>
    .bind (.refl _) fun rest => .bind
      ((evaluator_below (Nat.succ_le_succ h)).arguments h site [] rest) fun _ => .refl _
  refine hstart.trans (.symm (.between (hvalue.bind hbehind) hlater (fun n => ?_) fun n => ?_))
  · exact .bind (hvalue (Nat.le_succ n)) fun v => .bind (.refl _) fun rest =>
      hbelow (Nat.le_succ n) (Nat.le_refl n) (Nat.le_succ n) v rest
  · exact .bind (.refl _) fun v => .bind (.refl _) fun rest => .bind
      ((evaluator_below (Nat.le_refl _)).arguments (Nat.le_succ n) site [] rest) fun _ => .refl _

section
variable {i : Interpreter} (h : site.Of i) (hroom : site.room = .unbounded)
include h hroom

/-- A form that calls a function evaluates its arguments and calls it with them. -/
theorem matches_call [Host] {q : CellRef} {f forms : Value} {pos : Option Pos}
    (hq : w.cell q = ⟨.sym s, forms, pos⟩) (hs : site.Names w s f) :
    Matches (site.valueRuns (.cell q)) w
      (fun n => (evaluator n).arguments site n [] forms >>= fun args => call n site f args) w := by
  let later (n : Nat) : Run Value :=
    (evaluator n).arguments site n [] forms >>= fun args => call (n + 1) site f args
  have hstart : Matches (site.valueRuns (.cell q)) w later w := by
    refine (matches_form hroom q).trans (.of_run 0 0 0 fun n _ => ?_)
    rw [EStateM.run_bind, Evaluator.run_form hq hs, ← EStateM.run_bind, bind_assoc]
    simp only [later, h.call_eq]
  have harguments : Run.Rising fun n => (evaluator n).arguments site n [] forms :=
    fun _ _ h => (evaluator_below h).arguments h site [] forms
  refine hstart.trans (.symm (.between (harguments.bind fun args => Run.rising_call site f args)
    (fun n m h => ?_) (fun n => ?_) fun n => ?_))
  · exact .bind (harguments h) fun args => Run.rising_call site f args (Nat.succ_le_succ h)
  · exact .bind (.refl _) fun args => Run.rising_call site f args (Nat.le_succ n)
  · exact .bind (harguments (Nat.le_succ n)) fun args => .refl _

/-- A form with one argument calls the function with its value, if the list of arguments still ends
there. -/
theorem matches_unary [Host] {q p : CellRef} {f : Value} {pos : Option Pos}
    (hq : w.cell q = ⟨.sym s, .cell p, pos⟩) (hs : site.Names w s f)
    (hlast : ∀ v w₁, Reaches (site.valueRuns (w.cell p).car) w (.ok v w₁) →
    (w₁.cell p).cdr = .nil) :
    Matches (site.valueRuns (.cell q)) w
      (fun n => site.valueRuns (w.cell p).car n >>= fun v => call n site f [v]) w := by
  refine (matches_call h hroom hq hs).trans ?_
  have hrising : Run.Rising fun n => (evaluator n).arguments site n [] (.cell p) :=
    fun _ _ h => (evaluator_below h).arguments h site [] (.cell p)
  have hsame : Matches (fun n => (evaluator n).arguments site n [] (.cell p)) w
      (fun n => site.valueRuns (w.cell p).car n >>= fun v => pure [v]) w := by
    refine (matches_arguments p).trans ?_
    refine .bind (.refl _ _) (Run.rising_value site _) (Run.rising_value site _) fun v w₁ hv => ?_
    refine .of_run 0 1 0 fun n _ => ?_
    rw [Run.run_look_bind, hlast v w₁ hv]
    rfl
  refine (hsame.bind_left hrising ((Run.rising_value site _).bind fun v => .const _) _).trans ?_
  refine .of_run 0 0 0 fun n _ => ?_
  rw [bind_assoc]
  simp only [pure_bind]

/-- A form that calls a function with values that its arguments are known to have. -/
theorem matches_given [Host] {q : CellRef} {f forms : Value} {pos : Option Pos}
    (hq : w.cell q = ⟨.sym s, forms, pos⟩) (hs : site.Names w s f)
    (hargs : site.Gives w forms args w₁) :
    Matches (site.valueRuns (.cell q)) w (fun n => call n site f args) w₁ :=
  (matches_call h hroom hq hs).trans (.after hargs _)

/-- The call of a built-in function does what is its own, and reports failures of the host. -/
theorem matches_builtin [Host] (b : Builtin) (args : List Value) :
    Matches (fun n => call n site (.builtin b) args) w
      (fun n => Run.orHostFault b.hostName (b.run site.room (call n site) args)) w := by
  have henter : site.room.enter? = some site.room := by rw [hroom]; rfl
  refine .of_run 0 1 0 fun n _ => ?_
  rw [h.call_builtin henter]
  rfl

/-- `apply` calls a function with the elements of a list. -/
theorem matches_apply [Host] {f list : Value} (hf : f.isCallable = true)
    (hlist : w.ListOf list args) :
    Matches (fun n => call n site (.builtin .apply) [f, list]) w
      (fun n => Run.orHostFault "apply" (call n site f args)) w := by
  obtain ⟨cells, hspine, rfl⟩ := hlist
  have henter : site.room.enter? = some site.room := by rw [hroom]; rfl
  exact .of_run 0 1 0 fun n _ => h.call_apply henter n hf hspine

/-- The negation of a form. -/
theorem matches_not [Host] {q p : CellRef} {pos : Option Pos}
    (hq : w.cell q = ⟨.sym ⟨"not"⟩, .cell p, pos⟩) (hnot : site.Names w ⟨"not"⟩ (.builtin .not))
    (hlast : ∀ v w₁, Reaches (site.valueRuns (w.cell p).car) w (.ok v w₁) →
    (w₁.cell p).cdr = .nil) :
    Matches (site.valueRuns (.cell q)) w
      (fun n => site.valueRuns (w.cell p).car n >>= fun v => pure (.bool !v.isTruthy)) w := by
  have hvalue := Run.rising_value site (w.cell p).car
  refine (matches_unary h hroom hq hnot hlast).trans
    (.bind (.refl _ _) hvalue hvalue fun v w₁ _ => ?_)
  refine .of_run 0 1 0 fun n _ => ?_
  have henter : site.room.enter? = some site.room := by rw [hroom]; rfl
  rw [h.call_builtin henter]
  rfl

/-- The call of a closure comes to what its body comes to in the frame with the arguments. -/
theorem matches_closure [Host] {r : ClosureRef} {args : List Value} {env : FrameRef} {body : Value}
    (hbind : ((w.closure r).formals.bind args (w.closure r).env (w.closure r).name).run
    w = .ok env w₁)
    (hbody : (w₁.closure r).body = body) :
    Matches (fun n => call n site (.closure r) args) w
      (Site.valueRuns { site with env := env } body) w₁ := by
  let inner : Site := { site with env := env }
  let later (n : Nat) : Run Value :=
    eval (n + 1) true inner body >>= (evaluator (n + 1)).complete inner n
  have hstart : Matches (fun n => call n site (.closure r) args) w later w₁ := by
    refine .of_run 0 2 0 fun n _ => ?_
    rw [h.call_eq, Evaluator.apply, Evaluator.callClosure]
    simp only [bind_assoc]
    rw [Run.run_look_bind, EStateM.run_bind, hbind]
    simp only [Evaluator.finish, bind_assoc, pure_bind, Answer.get, bind_pure]
    rw [← Evaluator.complete_env _ site env, Evaluator.complete, Run.run_look_bind, hbody]
    rfl
  have hlater : Run.Rising later := fun n m h =>
    .bind ((evaluator_below (Nat.succ_le_succ h)).eval true inner body) fun a =>
      (evaluator_below (Nat.succ_le_succ h)).complete h inner a
  have hevaluate : Run.Rising fun n => evaluate n inner body :=
    fun _ _ h => evaluate_below h inner body
  have hbetween : Matches (fun n => evaluate n inner body) w₁ later w₁ := by
    refine .between hevaluate hlater (fun n => ?_) fun n => ?_
    · exact .bind ((evaluator_below (Nat.le_succ n)).eval true inner body) fun a =>
        (evaluator_below (Nat.le_succ n)).complete (Nat.le_refl n) inner a
    · exact .bind (.refl _) fun a =>
        (evaluator_below (Nat.le_refl _)).complete (Nat.le_succ n) inner a
  have hinner : inner.room = .unbounded := hroom
  exact (hstart.trans hbetween.symm).trans
    fun r => (value_comesTo_iff_evaluate_comesTo hinner body w₁ r).symm

end

end Site

end TemplateLisp
