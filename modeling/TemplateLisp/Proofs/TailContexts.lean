import TemplateLisp.Proofs.FormOutcomes
import TemplateLisp.Host.Sample

/-!
# Calls in tail position

A form in tail position hands that position on to one of its parts: `Spot.Enters` has the ways in
which it does so, each with what is evaluated before the part is reached. Whatever the part is
answered with, the form is answered with (`Spot.Enters.answers`). So a call of a closure is handed
back from any depth of such forms, with its arguments bound and with nothing of the closure
evaluated (`Spot.answers_call`).

Two of the ways lead through forms that are made on the spot, the expansions of `when` and `unless`.
Their pairs are out of reach of the test that is evaluated in between, so they are still as they
were made when the rest of the expansion is reached.
-/

namespace TemplateLisp

/-! ## Bindings -/

namespace Site

/-- From `w`, a binding of a `let` takes effect in the frame of the site, and the world is `w'`
then. -/
inductive BindsOne [Host] (site : Site) (w : World) : Value → World → Prop where
  | bare (s : Symbol) : BindsOne site w (.sym s) (w.define site.env s .nil)
  | unset {b : Value} {s : Symbol} (binding : w.ListOf b [.sym s]) :
      BindsOne site w b (w.define site.env s .nil)
  | value {b form v : Value} {s : Symbol} {w₁ : World} (binding : w.ListOf b [.sym s, form])
      (value : site.HasValue w form v w₁) : BindsOne site w b (w₁.define site.env s v)

/-- From `w`, the bindings of a list take effect one after the other, and the world is `w'` then.
The list is walked as it stands when each is reached. -/
inductive Binds [Host] (site : Site) : World → Value → World → Prop where
  | nil {w : World} : Binds site w .nil w
  | cons {w w₁ w' : World} {r : CellRef} (one : site.BindsOne w (w.cell r).car w₁)
      (rest : Binds site w₁ (w₁.cell r).cdr w') : Binds site w (.cell r) w'

variable {site : Site} {w w' : World}

theorem run_bindOne_unset {b : Value} {s : Symbol} (hb : w.ListOf b [.sym s]) (e : Evaluator) :
    (SpecialForm.bindOne e site b).run w = .ok () (w.define site.env s .nil) := by
  obtain ⟨q, rfl, hcar, -⟩ := hb.cons_inv
  rw [SpecialForm.bindOne, Run.run_look_bind, hcar]
  dsimp only
  rw [EStateM.run_bind, hb.properItems]
  rfl

theorem run_bindOne_value {b form : Value} {s : Symbol} (hb : w.ListOf b [.sym s, form])
    (e : Evaluator) : (SpecialForm.bindOne e site b).run w =
      (e.value site form >>= fun v => Run.define site.env s v).run w := by
  obtain ⟨q, rfl, hcar, -⟩ := hb.cons_inv
  rw [SpecialForm.bindOne, Run.run_look_bind, hcar]
  dsimp only
  rw [EStateM.run_bind, hb.properItems]

theorem run_bindAll_nil [Host] {whole : Value} {behind : Option CellRef}
    (h : w.restOf whole behind = .nil) (e : Evaluator) (n : Nat) :
    (SpecialForm.bindAll e site (n + 1) (.list whole behind)).run w = .ok () w := by
  rw [SpecialForm.bindAll, Cursor.next, bind_assoc, Run.run_look_bind, h]
  rfl

theorem run_bindAll_cons [Host] {whole : Value} {behind : Option CellRef} {r : CellRef}
    (h : w.restOf whole behind = .cell r) (e : Evaluator) (n : Nat) :
    (SpecialForm.bindAll e site (n + 1) (.list whole behind)).run w =
      (SpecialForm.bindOne e site (w.cell r).car >>= fun _ =>
        SpecialForm.bindAll e site n (.list whole (some r))).run w := by
  rw [SpecialForm.bindAll, Cursor.next, bind_assoc, Run.run_look_bind, h]
  dsimp only
  rw [bind_assoc, Run.run_look_bind, pure_bind]

theorem BindsOne.comesTo [Host] {b : Value} (h : site.BindsOne w b w') :
    Run.ComesTo (fun n => SpecialForm.bindOne (evaluator n) site b) w (.ok () w') := by
  cases h with
  | bare s => exact .of_forall fun _ => rfl
  | unset hb => exact .of_forall fun n => run_bindOne_unset hb _
  | @value _ form v s w₁ hb hvalue =>
    have hcomes : Run.ComesTo
        (fun n => (evaluator n).value site form >>= fun v => Run.define site.env s v) w
        (.ok () (w₁.define site.env s v)) := .bind hvalue (.of_forall fun _ => rfl)
    simpa only [Run.ComesTo, run_bindOne_value hb] using hcomes

/-- Bindings take effect with enough fuel for them and for their number. -/
theorem Binds.bindAll [Host] {v : Value} (h : site.Binds w v w') :
    ∃ bound, ∀ (whole : Value) (behind : Option CellRef), w.restOf whole behind = v →
      ∀ m n, bound ≤ m → bound ≤ n →
        (SpecialForm.bindAll (evaluator m) site n (.list whole behind)).run w = .ok () w' := by
  induction h with
  | nil =>
    refine ⟨1, fun whole behind hrest m n _ hn => ?_⟩
    obtain ⟨n, rfl⟩ : ∃ k, n = k + 1 := ⟨n - 1, by omega⟩
    exact run_bindAll_nil hrest _ n
  | @cons w w₁ w' r one rest ih =>
    obtain ⟨bound, hbound⟩ := ih
    obtain ⟨-, k, hk⟩ := one.comesTo
    refine ⟨bound + k + 1, fun whole behind hrest m n hm hn => ?_⟩
    obtain ⟨n, rfl⟩ : ∃ k, n = k + 1 := ⟨n - 1, by omega⟩
    rw [run_bindAll_cons hrest, EStateM.run_bind, hk m (by omega)]
    exact hbound whole (some r) rfl m n (by omega) (by omega)

/-- The world stays sound, and nothing gets lost. -/
theorem BindsOne.soundIn [Host] {b : Value} (h : site.BindsOne w b w') (hw : site.SoundIn w)
    (hb : w.InRange b) : site.SoundIn w' ∧ w.Grows w' := by
  have hdefine {w : World} (hw : site.SoundIn w) (s : Symbol) {v : Value} (hv : w.InRange v) :
      site.SoundIn (w.define site.env s v) ∧ w.Grows (w.define site.env s v) := by
    have hstep : (Rules.mk True True).Change w (w.define site.env s v) := .define fun _ => hv
    exact ⟨⟨hstep.sound trivial hw.sound,
      Nat.lt_of_lt_of_le hw.frame hstep.grows.frames⟩, hstep.grows⟩
  cases h with
  | bare s => exact hdefine hw s trivial
  | unset => exact hdefine hw _ trivial
  | value hlist hvalue =>
    have hform := hlist.inRange hw.sound hb _ (List.mem_cons_of_mem _ List.mem_cons_self)
    obtain ⟨hw₁, hgrows, hv⟩ := hvalue.soundIn hw hform
    exact ⟨(hdefine hw₁ _ hv).1, hgrows.trans (hdefine hw₁ _ hv).2⟩

theorem Binds.soundIn [Host] {v : Value} (h : site.Binds w v w') (hw : site.SoundIn w)
    (hv : w.InRange v) : site.SoundIn w' ∧ w.Grows w' := by
  induction h with
  | nil => exact ⟨hw, .refl _⟩
  | @cons w w₁ w' r one _ ih =>
    have hbinding := hw.sound.held (.cell r) _ List.mem_cons_self
    obtain ⟨hw₁, hgrows⟩ := one.soundIn hw hbinding
    have hrest := hw₁.sound.held (.cell r) _ (List.mem_cons_of_mem _ List.mem_cons_self)
    obtain ⟨hw', hgrows'⟩ := ih hw₁ hrest
    exact ⟨hw', hgrows.trans hgrows'⟩

/-! ## Clauses -/

/-- From `w`, the test of one of the clauses holds, after those before it have failed, and all forms
of that clause but the last one are evaluated. The world is `w'` then. -/
inductive Selects [Host] (site : Site) : World → List Value → Value → World → Prop where
  | here {w w₁ w' : World} {clause test v last : Value} {forms clauses : List Value}
      (list : w.ListOf clause (test :: (forms ++ [last]))) (value : site.HasValue w test v w₁)
      (truthy : v.isTruthy = true) (before : site.Evaluates (fun _ => True) w₁ forms w') :
      Selects site w (clause :: clauses) last w'
  | later {w w₁ w' : World} {clause test v last : Value} {forms clauses : List Value}
      (list : w.ListOf clause (test :: forms)) (value : site.HasValue w test v w₁)
      (falsy : v.isTruthy = false) (rest : Selects site w₁ clauses last w') :
      Selects site w (clause :: clauses) last w'

variable {tail : Bool}

theorem Selects.clauses [Host] {args : List Value} {last : Value} {a : Answer tail} {w₂ : World}
    (h : site.Selects w args last w') (hlast : site.Answers w' last a w₂) :
    Run.ComesTo (fun n => SpecialForm.clauses (evaluator n) tail site args) w (.ok a w₂) := by
  induction h with
  | @here w w₁ w' clause test v last forms rest list value truthy before =>
    obtain ⟨r, rfl, -, -⟩ := list.cons_inv
    refine .bind (.of_forall fun _ => list.properItems site.room) (.bind value ?_)
    simpa [truthy] using before.sequence hlast
  | @later w w₁ w' clause test v last forms rest list value falsy _ ih =>
    obtain ⟨r, rfl, -, -⟩ := list.cons_inv
    refine .bind (.of_forall fun _ => list.properItems site.room) (.bind value ?_)
    simpa [falsy] using ih hlast

theorem Selects.soundIn [Host] {args : List Value} {last : Value} (h : site.Selects w args last w')
    (hw : site.SoundIn w) (hargs : ∀ v ∈ args, w.InRange v) :
    site.SoundIn w' ∧ w'.InRange last := by
  induction h with
  | @here w w₁ w' clause test v last forms rest list value _ before =>
    have hitems := list.inRange hw.sound (hargs clause List.mem_cons_self)
    obtain ⟨hw₁, hgrows, -⟩ := value.soundIn hw (hitems test List.mem_cons_self)
    have hforms : ∀ v ∈ forms ++ [last], w₁.InRange v :=
      fun v hv => (hitems v (List.mem_cons_of_mem _ hv)).mono hgrows
    obtain ⟨hw', hgrows'⟩ := before.soundIn hw₁ fun v hv => hforms v (List.mem_append_left _ hv)
    exact ⟨hw', (hforms last (by simp)).mono hgrows'⟩
  | @later w w₁ w' clause test v last forms rest list value _ _ ih =>
    have hitems := list.inRange hw.sound (hargs clause List.mem_cons_self)
    obtain ⟨hw₁, hgrows, -⟩ := value.soundIn hw (hitems test List.mem_cons_self)
    exact ih hw₁ fun v hv => (hargs v (List.mem_cons_of_mem _ hv)).mono hgrows

/-! ## Operands -/

theorem Evaluates.operands [Host] {stopAt : Bool} {none : Value} {args : List Value} {last : Value}
    {a : Answer tail} {w₂ : World}
    (h : site.Evaluates (fun v => v.isTruthy ≠ stopAt) w args w')
    (hlast : site.Answers w' last a w₂) :
    Run.ComesTo (fun n =>
      SpecialForm.operands (evaluator n) tail site stopAt none (args ++ [last])) w
      (.ok a w₂) := by
  induction h with
  | nil => exact hlast
  | @cons _ _ _ _ v forms value kind _ ih =>
    obtain ⟨u, us, hrest⟩ : ∃ u us, forms ++ [last] = u :: us :=
      List.exists_cons_of_ne_nil (by simp)
    rw [hrest] at ih
    rw [List.cons_append, hrest]
    refine .bind value ?_
    simpa only [if_neg kind] using ih hlast

/-! ## Local variables -/

/-- A new scope inside of the one of the site, for a world that has just got it as its
last frame. -/
def scope (site : Site) (w : World) : Site := { site with env := ⟨w.frames.size⟩ }

/-- The world with a new frame inside of the frame of the site. -/
def openScope (site : Site) (w : World) : World := (w.addFrame ⟨[], some site.env⟩).2

theorem Binds.bindLocals [Host] {bindings : Value} {forms : List Value} {last : Value}
    {a : Answer tail} {w₁ w₂ : World} (h : (site.scope w).Binds (site.openScope w) bindings w₁)
    (before : (site.scope w).Evaluates (fun _ => True) w₁ forms w')
    (hlast : (site.scope w).Answers w' last a w₂) :
    Run.ComesTo (fun n => SpecialForm.bindLocals (evaluator n) n tail site
      (bindings :: (forms ++ [last]))) w (.ok a w₂) := by
  have hbind : Run.ComesTo (fun n => do
      SpecialForm.bindAll (evaluator n) (site.scope w) n (← Run.cursor "let" 0 bindings))
      (site.openScope w) (.ok () w₁) := by
    obtain ⟨bound, hbound⟩ := h.bindAll
    cases h with
    | nil => exact Run.comesTo_succ.1 (.of_forall fun _ => rfl)
    | @cons _ _ _ r => exact ⟨nofun, bound, fun m hm => hbound (.cell r) none rfl m m hm hm⟩
  have hlike : Evaluator.isListLike bindings = true := by cases h <;> rfl
  have hrun (n : Nat) : SpecialForm.bindLocals (evaluator n) n tail site
      (bindings :: (forms ++ [last])) = Run.newFrame (some site.env) >>= fun env =>
        (do SpecialForm.bindAll (evaluator n) { site with env := env } n
              (← Run.cursor "let" 0 bindings)) >>= fun _ =>
        (evaluator n).sequence tail { site with env := env } (forms ++ [last]) := by
    rw [SpecialForm.bindLocals, if_pos hlike]
    simp only [bind_assoc]
  simp only [hrun]
  have hnew : Run.ComesTo (fun _ => Run.newFrame (some site.env)) w
      (.ok (site.scope w).env (site.openScope w)) := .of_forall fun _ => rfl
  exact .bind hnew (.bind hbind (before.sequence hlast))

theorem SoundIn.scope (h : site.SoundIn w) :
    (site.scope w).SoundIn (site.openScope w) ∧ w.Grows (site.openScope w) := by
  have hstep : (Rules.mk True True).Change w (site.openScope w) :=
    .frame (fun _ hv => nomatch hv) fun _ => h.frame
  refine ⟨⟨hstep.sound trivial h.sound, ?_⟩, hstep.grows⟩
  simp [Site.scope, openScope, World.addFrame]

end Site

/-! ## Expansions -/

namespace BuiltinMacro

variable {w w₁ w₂ : World} {room : Room} {args : List Value} {e : Value}

/-- An expansion is made of new pairs and of the arguments. -/
theorem expand_sound {m : BuiltinMacro} (hw : w.Sound) (hargs : ∀ v ∈ args, w.InRange v)
    (h : (m.expand room args).run w = .ok e w₁) : w₁.Sound ∧ w.Grows w₁ ∧ w₁.InRange e := by
  obtain ⟨hsafe, hgrows, he⟩ := (Reserve.safe_none hw).expansion
    (fun v hv => Reserve.admits_none_iff.2 (hargs v hv)) h
  exact ⟨hsafe.sound, hgrows, he.inRange⟩

/-- A list that has been made while expanding is there until one of its pairs is changed. -/
theorem listOf_kept {u : World} {items : List Value} (hw : w.Grows u)
    (h₁ : (u.addList items .nil).2.Extends w₁) (hsame : (Reserve.none.since w w₁).Same w₁ w₂)
    (hgrows : w₁.Grows w₂) : w₂.ListOf (u.addList items .nil).1 items := by
  refine World.listOf_addList u items (Nat.le_trans h₁.cells hgrows.cells) fun r hr hlt => ?_
  have hnew : (Reserve.none.since w w₁).cells r :=
    .inr ⟨Nat.le_trans hw.cells hr, Nat.lt_of_lt_of_le hlt h₁.cells⟩
  rw [hsame.cell r hnew, h₁.cell r hlt]

/-- What `when` expands to: a choice of a block. -/
theorem expand_whenTrue {test : Value} {body : List Value}
    (h : (whenTrue.expand room (test :: body)).run w = .ok e w₁) :
    ∃ block, w.Extends w₁ ∧ w₁.ListOf e [.sym ⟨"if"⟩, test, block] ∧
      ∀ w₂, (Reserve.none.since w w₁).Same w₁ w₂ → w₁.Grows w₂ →
        w₂.ListOf block (.sym ⟨"progn"⟩ :: body) := by
  let made := w.addList (.sym ⟨"progn"⟩ :: body) .nil
  have hblock : w.Extends made.2 := w.extends_addList _ _
  obtain ⟨rfl, rfl⟩ : e = (made.2.addList [.sym ⟨"if"⟩, test, made.1] .nil).1 ∧
      w₁ = (made.2.addList [.sym ⟨"if"⟩, test, made.1] .nil).2 := by
    cases h
    exact ⟨rfl, rfl⟩
  have hchoice := made.2.extends_addList [.sym ⟨"if"⟩, test, made.1] .nil
  exact ⟨made.1, hblock.trans hchoice,
    listOf_kept hblock.toGrows (.refl _) .refl (.refl _),
    fun w₂ => listOf_kept (.refl w) hchoice⟩

/-- What `unless` expands to: a choice of a block by a call of `not`. -/
theorem expand_unlessTrue {test : Value} {body : List Value}
    (h : (unlessTrue.expand room (test :: body)).run w = .ok e w₁) :
    ∃ r q block, w.Extends w₁ ∧ w₁.ListOf e [.sym ⟨"if"⟩, .cell r, block] ∧
      w₁.cell r = ⟨.sym ⟨"not"⟩, .cell q, none⟩ ∧ (w₁.cell q).car = test ∧
      ∀ w₂, (Reserve.none.since w w₁).Same w₁ w₂ → w₁.Grows w₂ →
        (w₂.cell q).cdr = .nil ∧ w₂.ListOf block (.sym ⟨"progn"⟩ :: body) := by
  let operand := w.addCell ⟨test, .nil, none⟩
  let negation := operand.2.addCell ⟨.sym ⟨"not"⟩, .cell operand.1, none⟩
  let made := negation.2.addList (.sym ⟨"progn"⟩ :: body) .nil
  let choice := made.2.addList [.sym ⟨"if"⟩, .cell negation.1, made.1] .nil
  obtain ⟨rfl, rfl⟩ : e = choice.1 ∧ w₁ = choice.2 := by
    cases h
    exact ⟨rfl, rfl⟩
  have hoperand : w.Extends operand.2 := w.extends_addCell _
  have hnegation : operand.2.Extends negation.2 := operand.2.extends_addCell _
  have hblock : negation.2.Extends made.2 := negation.2.extends_addList _ _
  have hchoice : made.2.Extends choice.2 := made.2.extends_addList _ _
  have hr : negation.1.index < negation.2.cells.size := by simp [negation, World.addCell]
  have hq : operand.1.index < operand.2.cells.size := by simp [operand, World.addCell]
  have hcellr : choice.2.cell negation.1 = ⟨.sym ⟨"not"⟩, .cell operand.1, none⟩ := by
    rw [(hblock.trans hchoice).cell _ hr]
    exact (World.cell_addCell ..).trans (if_pos rfl)
  have hcellq : choice.2.cell operand.1 = ⟨test, .nil, none⟩ := by
    rw [(hnegation.trans (hblock.trans hchoice)).cell _ hq]
    exact (World.cell_addCell ..).trans (if_pos rfl)
  refine ⟨negation.1, operand.1, made.1, hoperand.trans (hnegation.trans (hblock.trans hchoice)),
    listOf_kept (hoperand.trans (hnegation.trans hblock)).toGrows (.refl _) .refl (.refl _), hcellr,
    congrArg Cell.car hcellq, fun w₂ hsame hgrows => ⟨?_, ?_⟩⟩
  · rw [hsame.cell operand.1 (.inr ⟨Nat.le_refl _, ?_⟩), hcellq]
    exact Nat.lt_of_lt_of_le hq (hnegation.trans (hblock.trans hchoice)).cells
  · exact listOf_kept (hoperand.trans hnegation).toGrows hchoice hsame hgrows

/-- The test of `when` or `unless` leaves the rest of the expansion as it was made. -/
theorem expand_kept [Host] {m : BuiltinMacro} {site : Site} {test x : Value} {body : List Value}
    (hw : site.SoundIn w) (hargs : ∀ v ∈ test :: body, w.InRange v)
    (h : (m.expand room (test :: body)).run w = .ok e w₁) (hext : w.Extends w₁)
    (hvalue : site.HasValue w₁ test x w₂) : (Reserve.none.since w w₁).Kept w₁ w₂ := by
  obtain ⟨hsound, hgrows, -⟩ := expand_sound hw.sound hargs h
  have hsafe := (Reserve.safe_none hw.sound).since hext hsound
  have htest := (Reserve.admits_none_iff.2 (hargs test List.mem_cons_self)).since hgrows
  have hframe : w.InRange (.env site.env) := hw.frame
  obtain ⟨-, n, hn⟩ := hvalue
  exact (hsafe.value ((Reserve.admits_none_iff.2 hframe).since hgrows) htest
    (hn n (Nat.le_refl n))).1

end BuiltinMacro

namespace Site

variable {site : Site} {w w' w₁ w₂ : World} {tail : Bool}

/-- The site sees the built-in macros and no others. -/
def Standard (site : Site) (w : World) : Prop := w.macros site.macros = BuiltinMacro.table

theorem Standard.transformer? (h : site.Standard w) (s : Symbol) :
    w.transformer? site.macros s = BuiltinMacro.table.lookup s := by
  rw [World.transformer?, h]

theorem Standard.extends (h : site.Standard w) (hw : w.Extends w') : site.Standard w' := by
  rw [Standard, World.macros, hw.macroTables_eq]
  exact h

theorem lookup?_eq (hw : w'.frames = w.frames) (env : FrameRef) (s : Symbol) :
    w'.lookup? env s = w.lookup? env s := by
  have hframe (r : FrameRef) : w'.frame r = w.frame r := by rw [World.frame, hw, World.frame]
  have hat (n : Nat) (r : FrameRef) : w'.lookupAt s n r = w.lookupAt s n r := by
    induction n generalizing r with
    | zero => rfl
    | succ n ih => simp only [World.lookupAt, hframe, ih]
  rw [World.lookup?, hat, hw, World.lookup?]

theorem Names.extends {s : Symbol} {f : Value} (h : site.Names w s f) (hw : w.Extends w') :
    site.Names w' s f where
  noMacro := by
    rw [World.transformer?, World.macros, hw.macroTables_eq]
    exact h.noMacro
  noSpecialForm := h.noSpecialForm
  noMember := h.noMember
  noKeyword := h.noKeyword
  bound := (lookup?_eq hw.frames_eq site.env s).trans h.bound
  callable := h.callable

/-! ## Choices -/

section
variable (hroom : site.room = .unbounded)
include hroom

theorem answers_block [Host] {form last : Value} {forms : List Value} {s : Symbol} {a : Answer tail}
    (hw : site.Standard w) (hs : s.name = "progn" ∨ s.name = "begin")
    (hform : w.ListOf form (.sym s :: (forms ++ [last])))
    (before : site.Evaluates (fun _ => True) w forms w') (hlast : site.Answers w' last a w₂) :
    site.Answers w form a w₂ := by
  obtain ⟨name⟩ := s
  rcases hs with rfl | rfl
  all_goals
    exact answers_special hroom hform (hw.transformer? _) rfl (before.sequence hlast)

theorem answers_choice [Host] {form test v yes no : Value} {a : Answer tail} (hw : site.Standard w)
    (hform : w.ListOf form [.sym ⟨"if"⟩, test, yes, no]) (hvalue : site.HasValue w test v w')
    (hrest : site.Answers w' (if v.isTruthy then yes else no) a w₂) : site.Answers w form a w₂ := by
  refine answers_special hroom hform (hw.transformer? _) rfl (.bind hvalue ?_)
  by_cases htruthy : v.isTruthy = true
  · rw [if_pos htruthy] at hrest
    simp only [if_pos htruthy]
    exact hrest
  · rw [if_neg htruthy] at hrest
    simp only [if_neg htruthy]
    exact hrest

theorem answers_condition [Host] {form test v yes : Value} {a : Answer tail} (hw : site.Standard w)
    (hform : w.ListOf form [.sym ⟨"if"⟩, test, yes]) (hvalue : site.HasValue w test v w')
    (htruthy : v.isTruthy = true) (hrest : site.Answers w' yes a w₂) :
    site.Answers w form a w₂ := by
  refine answers_special hroom hform (hw.transformer? _) rfl (.bind hvalue ?_)
  simp only [if_pos htruthy]
  exact hrest

/-- A call of `not` that has just been made. -/
theorem hasValue_not [Host] {r q : CellRef} {x : Value}
    (hnot : site.Names w ⟨"not"⟩ (.builtin .not)) (hr : w.cell r = ⟨.sym ⟨"not"⟩, .cell q, none⟩)
    (hvalue : site.HasValue w (w.cell q).car x w') (hq : (w'.cell q).cdr = .nil) :
    site.HasValue w (.cell r) (.bool (!x.isTruthy)) w' := by
  have hargs : site.Gives w (.cell q) [x] w' := .cons hvalue (by rw [hq]; exact gives_nil)
  refine .of_answers (answers_cell hroom ?_)
  have happly : Run.ComesTo (fun n => (evaluator n).apply n false site (.builtin .not) [x]) w'
      (.ok (.value (.bool (!x.isTruthy))) w') := by
    refine .of_forall fun n => ?_
    simp only [Evaluator.apply, Evaluator.callBuiltin, site.deeper_of_unbounded hroom, pure_bind]
    rfl
  have hform := Run.ComesTo.bind hargs happly
  simpa only [Run.ComesTo, Evaluator.run_form hr hnot] using hform

end

end Site

/-! ## Tail contexts -/

/-- A form that is to be evaluated at a site, from a world on. -/
structure Spot where
  site : Site
  form : Value
  world : World

namespace Spot

/-- Everything that is referred to exists, the form included. -/
structure Sound (a : Spot) : Prop extends a.site.SoundIn a.world where
  form : a.world.InRange a.form

/-- A form in tail position hands that position on to one of its parts. What is evaluated before
gives values that lead there, and the part is to be evaluated from the world that is left. -/
inductive HandsOn [Host] : Spot → Spot → Prop where
  /-- `(progn e ... k)` and `(begin e ... k)`. -/
  | block {site : Site} {w w' : World} {form last : Value} {forms : List Value} {s : Symbol}
      (name : s.name = "progn" ∨ s.name = "begin")
      (list : w.ListOf form (.sym s :: (forms ++ [last])))
      (before : site.Evaluates (fun _ => True) w forms w') :
      HandsOn ⟨site, form, w⟩ ⟨site, last, w'⟩
  /-- `(let bindings e ... k)` and `(let* bindings e ... k)`. -/
  | scope {site : Site} {w w₁ w' : World} {form bindings last : Value}
    {forms : List Value} {s : Symbol}
      (name : s.name = "let" ∨ s.name = "let*")
      (list : w.ListOf form (.sym s :: bindings :: (forms ++ [last])))
      (bind : (site.scope w).Binds (site.openScope w) bindings w₁)
      (before : (site.scope w).Evaluates (fun _ => True) w₁ forms w') :
      HandsOn ⟨site, form, w⟩ ⟨site.scope w, last, w'⟩
  /-- `(if c k)` and `(if c k e)`. -/
  | yes {site : Site} {w w' : World} {form test v last : Value} {others : List Value}
      (list : w.ListOf form (.sym ⟨"if"⟩ :: test :: last :: others)) (length : others.length ≤ 1)
      (value : site.HasValue w test v w') (truthy : v.isTruthy = true) :
      HandsOn ⟨site, form, w⟩ ⟨site, last, w'⟩
  /-- `(if c e k)`. -/
  | no {site : Site} {w w' : World} {form test v other last : Value}
      (list : w.ListOf form [.sym ⟨"if"⟩, test, other, last])
      (value : site.HasValue w test v w') (falsy : v.isTruthy = false) :
      HandsOn ⟨site, form, w⟩ ⟨site, last, w'⟩
  /-- `(cond ... (c e ... k) ...)`. -/
  | clause {site : Site} {w w' : World} {form last : Value} {clauses : List Value}
      (list : w.ListOf form (.sym ⟨"cond"⟩ :: clauses)) (selects : site.Selects w clauses last w') :
      HandsOn ⟨site, form, w⟩ ⟨site, last, w'⟩
  /-- `(and e ... k)`. -/
  | conjunction {site : Site} {w w' : World} {form last : Value} {forms : List Value}
      (list : w.ListOf form (.sym ⟨"and"⟩ :: (forms ++ [last])))
      (before : site.Evaluates (·.isTruthy ≠ false) w forms w') :
      HandsOn ⟨site, form, w⟩ ⟨site, last, w'⟩
  /-- `(or e ... k)`. -/
  | disjunction {site : Site} {w w' : World} {form last : Value} {forms : List Value}
      (list : w.ListOf form (.sym ⟨"or"⟩ :: (forms ++ [last])))
      (before : site.Evaluates (·.isTruthy ≠ true) w forms w') :
      HandsOn ⟨site, form, w⟩ ⟨site, last, w'⟩
  /-- `(when c e ... k)`, which is expanded into the world `w₁` first. -/
  | whenTrue {site : Site} {w w₁ w₂ w' : World} {form test v expansion last : Value}
      {forms : List Value} (list : w.ListOf form (.sym ⟨"when"⟩ :: test :: (forms ++ [last])))
      (expands : (BuiltinMacro.whenTrue.expand site.room (test :: (forms ++ [last]))).run w =
        .ok expansion w₁)
      (value : site.HasValue w₁ test v w₂) (truthy : v.isTruthy = true)
      (standard : site.Standard w₂) (before : site.Evaluates (fun _ => True) w₂ forms w') :
      HandsOn ⟨site, form, w⟩ ⟨site, last, w'⟩
  /-- `(unless c e ... k)`, which is expanded into the world `w₁` first. -/
  | unlessTrue {site : Site} {w w₁ w₂ w' : World} {form test v expansion last : Value}
      {forms : List Value} (list : w.ListOf form (.sym ⟨"unless"⟩ :: test :: (forms ++ [last])))
      (expands : (BuiltinMacro.unlessTrue.expand site.room (test :: (forms ++ [last]))).run w =
        .ok expansion w₁)
      (negation : site.Names w ⟨"not"⟩ (.builtin .not))
      (value : site.HasValue w₁ test v w₂) (falsy : v.isTruthy = false)
      (standard : site.Standard w₂) (before : site.Evaluates (fun _ => True) w₂ forms w') :
      HandsOn ⟨site, form, w⟩ ⟨site, last, w'⟩

variable {a b : Spot}

/-- What is left to evaluate stays at a site with the same room. -/
theorem HandsOn.room [Host] (h : a.HandsOn b) : b.site.room = a.site.room := by
  cases h <;> rfl

/-- The form is answered with what the part is answered with. -/
theorem HandsOn.answers [Host] (h : a.HandsOn b) (hroom : a.site.room = .unbounded)
    (hstandard : a.site.Standard a.world) (hsound : a.Sound) {tail : Bool}
    {x : Answer tail} {w : World} (hlast : b.site.Answers b.world b.form x w) :
    a.site.Answers a.world a.form x w := by
  cases h with
  | block name list before => exact Site.answers_block hroom hstandard name list before hlast
  | @scope site w₀ _ _ _ _ _ _ s name list bind before =>
    obtain ⟨name'⟩ := s
    rcases name with rfl | rfl
    all_goals
      exact Site.answers_special hroom list (hstandard.transformer? _) rfl
        (bind.bindLocals before hlast)
  | @yes _ _ _ _ _ _ _ others list length value truthy =>
    match others, length with
    | [], _ => exact Site.answers_condition hroom hstandard list value truthy hlast
    | [_], _ => exact Site.answers_choice hroom hstandard list value (by rwa [if_pos truthy])
  | no list value falsy =>
    exact Site.answers_choice hroom hstandard list value (by rwa [if_neg (by simp [falsy])])
  | clause list selects =>
    exact Site.answers_special hroom list (hstandard.transformer? _) rfl (selects.clauses hlast)
  | conjunction list before =>
    exact Site.answers_special hroom list (hstandard.transformer? _) rfl (before.operands hlast)
  | disjunction list before =>
    exact Site.answers_special hroom list (hstandard.transformer? _) rfl (before.operands hlast)
  | whenTrue list expands value truthy standard before =>
    obtain ⟨block, hext, hchoice, hlater⟩ := BuiltinMacro.expand_whenTrue expands
    have hargs := list.inRange hsound.sound hsound.form
    have hkept := BuiltinMacro.expand_kept hsound.toSoundIn
      (fun v hv => hargs v (List.mem_cons_of_mem _ hv)) expands hext value
    have hblock := Site.answers_block hroom standard (.inl rfl)
      (hlater _ hkept.toSame hkept.grows) before hlast
    exact Site.answers_macro hroom list (hstandard.transformer? _) expands
      (Site.answers_condition hroom (hstandard.extends hext) hchoice value truthy hblock)
  | @unlessTrue _ _ _ _ _ _ _ v _ _ _ list expands negation value falsy standard before =>
    obtain ⟨r, q, block, hext, hchoice, hr, hq, hlater⟩ := BuiltinMacro.expand_unlessTrue expands
    have hargs := list.inRange hsound.sound hsound.form
    have hkept := BuiltinMacro.expand_kept hsound.toSoundIn
      (fun v hv => hargs v (List.mem_cons_of_mem _ hv)) expands hext value
    obtain ⟨hend, hlist⟩ := hlater _ hkept.toSame hkept.grows
    rw [← hq] at value
    have hnot := Site.hasValue_not hroom (negation.extends hext) hr value hend
    have hblock := Site.answers_block hroom standard (.inl rfl) hlist before hlast
    exact Site.answers_macro hroom list (hstandard.transformer? _) expands
      (Site.answers_condition hroom (hstandard.extends hext) hchoice hnot
        (by rw [falsy]; rfl) hblock)

/-- The part exists in a sound world if the form does. -/
theorem HandsOn.sound [Host] (h : a.HandsOn b) (ha : a.Sound) : b.Sound := by
  have hlist {items : List Value} (hform : a.world.ListOf a.form items) :
      ∀ v ∈ items, a.world.InRange v := hform.inRange ha.sound ha.form
  -- what is left of a form whose first forms have been evaluated
  have hsequence {site : Site} {P : Value → Prop} {w w' : World} {forms : List Value} {last : Value}
      (hw : site.SoundIn w) (hforms : ∀ v ∈ forms ++ [last], w.InRange v)
      (before : site.Evaluates P w forms w') : Sound ⟨site, last, w'⟩ := by
    obtain ⟨hw', hgrows⟩ := before.soundIn hw fun v hv => hforms v (List.mem_append_left _ hv)
    exact ⟨hw', (hforms last (by simp)).mono hgrows⟩
  cases h with
  | block _ list before =>
    exact hsequence ha.toSoundIn (fun v hv => hlist list v (List.mem_cons_of_mem _ hv)) before
  | scope _ list bind before =>
    have hitems := hlist list
    obtain ⟨hopen, hgrows⟩ := ha.toSoundIn.scope
    obtain ⟨hbound, hgrows'⟩ := bind.soundIn hopen ((hitems _ (by simp)).mono hgrows)
    refine hsequence hbound (fun v hv => (hitems v ?_).mono (hgrows.trans hgrows')) before
    exact List.mem_cons_of_mem _ (List.mem_cons_of_mem _ hv)
  | yes list _ value _ =>
    obtain ⟨hw', hgrows, -⟩ := value.soundIn ha.toSoundIn (hlist list _ (by simp))
    exact ⟨hw', (hlist list _ (by simp)).mono hgrows⟩
  | no list value _ =>
    obtain ⟨hw', hgrows, -⟩ := value.soundIn ha.toSoundIn (hlist list _ (by simp))
    exact ⟨hw', (hlist list _ (by simp)).mono hgrows⟩
  | clause list selects =>
    obtain ⟨hw', hlast⟩ :=
      selects.soundIn ha.toSoundIn fun v hv => hlist list v (List.mem_cons_of_mem _ hv)
    exact ⟨hw', hlast⟩
  | conjunction list before =>
    exact hsequence ha.toSoundIn (fun v hv => hlist list v (List.mem_cons_of_mem _ hv)) before
  | disjunction list before =>
    exact hsequence ha.toSoundIn (fun v hv => hlist list v (List.mem_cons_of_mem _ hv)) before
  | whenTrue list expands value _ _ before | unlessTrue list expands _ value _ _ before =>
    have hargs := fun v hv => hlist list v (List.mem_cons_of_mem _ hv)
    obtain ⟨hsound, hgrows, -⟩ := BuiltinMacro.expand_sound ha.sound hargs expands
    have hw₁ := ha.toSoundIn.mono hsound hgrows
    obtain ⟨hw₂, hgrows', -⟩ := value.soundIn hw₁ ((hargs _ List.mem_cons_self).mono hgrows)
    refine hsequence hw₂ (fun v hv => (hargs v ?_).mono (hgrows.trans hgrows')) before
    exact List.mem_cons_of_mem _ hv

/-- A form calls a closure: its head stands for the closure or is a form that has it as its value,
and its arguments have the values `args`. The world is `w'` then. -/
inductive Calls [Host] (a : Spot) (c : ClosureRef) (args : List Value) (w' : World) : Prop where
  | named {r : CellRef} {s : Symbol} (form : a.form = .cell r)
    (head : (a.world.cell r).car = .sym s)
      (function : a.site.Names a.world s (.closure c))
      (arguments : a.site.Gives a.world (a.world.cell r).cdr args w')
  | computed {r : CellRef} {w₁ : World} (form : a.form = .cell r)
      (head : ∀ s, (a.world.cell r).car ≠ .sym s)
      (function : a.site.HasValue a.world (a.world.cell r).car (.closure c) w₁)
      (arguments : a.site.Gives w₁ (w₁.cell r).cdr args w')

/-- In tail position the call of a closure is handed back once its arguments are bound. -/
theorem Calls.answers [Host] {c : ClosureRef} {args : List Value} {w' w'' : World} {env : FrameRef}
    (h : a.Calls c args w') (hroom : a.site.room = .unbounded)
    (hbind : ((w'.closure c).formals.bind args (w'.closure c).env (w'.closure c).name).run w' =
      .ok env w'') : a.site.Answers a.world a.form (.call c env : Answer true) w'' := by
  obtain ⟨site, form, w⟩ := a
  have happly : Run.ComesTo (fun n => (evaluator n).apply n true site (.closure c) args) w'
      (.ok (.call c env) w'') := by
    refine .of_forall fun n => ?_
    rw [Evaluator.apply, Evaluator.callClosure, Run.run_look_bind, EStateM.run_bind, hbind]
    rfl
  cases h with
  | @named r s form head function arguments =>
    obtain rfl := form
    have hr : w.cell r = ⟨.sym s, (w.cell r).cdr, (w.cell r).pos⟩ := by rw [← head]
    have hcall := Run.ComesTo.bind arguments happly
    refine Site.answers_cell hroom ?_
    simpa only [Run.ComesTo, Evaluator.run_form hr function] using hcall
  | @computed r w₁ form head function arguments =>
    obtain rfl := form
    have hcall := Run.ComesTo.bind arguments happly
    have hhead :
      Run.ComesTo (fun n => (evaluator n).callHead n true site r (w.cell r).car (.closure c))
        w₁ (.ok (.call c env) w'') := by
      have hf : (Value.closure c).isCallable = true := rfl
      simpa only [Run.ComesTo, (evaluator _).run_callHead hf] using hcall
    refine Site.answers_cell hroom ?_
    simpa only [Run.ComesTo, (evaluator _).run_head head] using Run.ComesTo.bind function hhead

end Spot

/-- So many arguments may be passed for the parameters. -/
def ParameterList.Accepts (p : ParameterList) (count : Nat) : Prop :=
  p.required.length ≤ count ∧ (p.rest = none → count ≤ p.required.length + p.optional.length)

theorem ParameterList.Accepts.arityFault? {p : ParameterList} {count : Nat} (h : p.Accepts count)
    (label : String) : p.arityFault? label count = none := by
  obtain ⟨hleast, hgreatest⟩ := h
  rw [ParameterList.arityFault?, if_neg (Nat.not_lt.2 hleast), if_neg]
  cases hrest : p.rest with
  | none => simpa using hgreatest hrest
  | some r => simp

/-- Arguments that may be passed are bound. -/
theorem ParameterList.Accepts.bind {p : ParameterList} {args : List Value}
    (h : p.Accepts args.length) (outer : FrameRef) (name : Option String) (w : World) :
    ∃ env w', (p.bind args outer name).run w = .ok env w' := by
  simp only [ParameterList.bind, h.arityFault?]
  cases p.rest <;> exact ⟨_, _, rfl⟩

namespace Spot

/-- A spot at which the built-in macros, and no others, are seen hands its tail position on. -/
def Nests [Host] (a b : Spot) : Prop := a.site.Standard a.world ∧ a.HandsOn b

/-- What the innermost part is answered with, the whole form is answered with, however deep the part
is nested. -/
theorem answers_nested [Host] {start inner : Spot} (hroom : start.site.room = .unbounded)
    (hsound : start.Sound) (h : Relation.ReflTransGen Nests start inner) {tail : Bool}
    {x : Answer tail} {w : World} (hlast : inner.site.Answers inner.world inner.form x w) :
    start.site.Answers start.world start.form x w := by
  induction h using Relation.ReflTransGen.head_induction_on with
  | refl => exact hlast
  | head step _ ih =>
    exact step.2.answers hroom step.1 hsound (ih (step.2.room.trans hroom) (step.2.sound hsound))

/-- Tail position gets through forms of any depth. Let a form in tail position hand that position
on, from part to part, to a form that calls a closure, where nesting is unbounded, the closure
accepts so many arguments, and at each step on the way the built-in macros are the only ones. Then
the whole form hands the call back: with the closure, with the frame in which the arguments have
been bound, and in the world that binding them has left. So nothing has been evaluated but what
leads to the call. -/
theorem answers_call [Host] {start inner : Spot} (hroom : start.site.room = .unbounded)
    (hsound : start.Sound) (h : Relation.ReflTransGen Nests start inner) {c : ClosureRef}
    {args : List Value} {w : World} (hcall : inner.Calls c args w)
    (haccepts : (w.closure c).formals.Accepts args.length) :
    ∃ env w', ((w.closure c).formals.bind args (w.closure c).env (w.closure c).name).run w =
        .ok env w' ∧
      Run.ComesTo (fun n => eval n true start.site start.form) start.world
        (.ok (.call c env) w') := by
  have hinner : inner.site.room = .unbounded := by
    clear hcall
    induction h with
    | refl => exact hroom
    | tail _ step ih => exact step.2.room.trans ih
  obtain ⟨env, w', hbind⟩ := haccepts.bind (w.closure c).env (w.closure c).name w
  exact ⟨env, w', hbind, answers_nested hroom hsound h (hcall.answers hinner hbind)⟩

/-- The form `(let ((m 2)) (unless nil (f m)))` and a function `f` with one parameter. -/
def guardedCall : Spot where
  site := ⟨⟨0⟩, ⟨0⟩, none, .unbounded⟩
  form := .cell ⟨0⟩
  world :=
    { World.empty with
      cells := #[⟨.sym ⟨"let"⟩, .cell ⟨1⟩, none⟩, ⟨.cell ⟨2⟩, .cell ⟨5⟩, none⟩,
        ⟨.cell ⟨3⟩, .nil, none⟩, ⟨.sym ⟨"m"⟩, .cell ⟨4⟩, none⟩, ⟨.int 2, .nil, none⟩,
        ⟨.cell ⟨6⟩, .nil, none⟩, ⟨.sym ⟨"unless"⟩, .cell ⟨7⟩, none⟩, ⟨.nil, .cell ⟨8⟩, none⟩,
        ⟨.cell ⟨9⟩, .nil, none⟩, ⟨.sym ⟨"f"⟩, .cell ⟨10⟩, none⟩, ⟨.sym ⟨"m"⟩, .nil, none⟩]
      closures := #[⟨.nil, ⟨[⟨"x"⟩], [], none⟩, .sym ⟨"x"⟩, ⟨0⟩, some "f"⟩]
      frames := #[⟨Bindings.ofNames [(⟨"f"⟩, .closure ⟨0⟩), (⟨"not"⟩, .builtin .not)], none⟩]
      macroTables := #[BuiltinMacro.table] }

theorem guardedCall_sound : guardedCall.Sound where
  sound := by decide
  frame := by decide
  form := by decide

open scoped SampleHost in
/-- In the scope of the variable, the call is handed back with the frame for its argument. -/
theorem answers_call_guarded :
    guardedCall.site.room = .unbounded ∧ guardedCall.Sound ∧
    ∃ inner w, Relation.ReflTransGen Nests guardedCall inner ∧ inner.Calls ⟨0⟩ [.int 2] w ∧
      (w.closure ⟨0⟩).formals.Accepts 1 ∧
      ∃ w', Run.ComesTo (fun n => eval n true guardedCall.site guardedCall.form) guardedCall.world
          (.ok (.call ⟨0⟩ ⟨2⟩) w') ∧ w'.frame ⟨2⟩ =
            ⟨Bindings.ofNames [(⟨"x"⟩, .int 2)], some ⟨0⟩⟩ := by
  have hnumber (n : Number) (site : Site) (w : World) : site.HasValue w (.num n) (.num n) w :=
    .atom (fun _ => rfl) w
  let site := guardedCall.site.scope guardedCall.world
  let bound := (guardedCall.site.openScope guardedCall.world).define ⟨1⟩ ⟨"m"⟩ (.int 2)
  have hlet : guardedCall.world.ListOf (.cell ⟨0⟩)
      (.sym ⟨"let"⟩ :: .cell ⟨2⟩ :: ([] ++ [.cell ⟨6⟩])) := ⟨_, rfl, rfl⟩
  have hscope : guardedCall.HandsOn ⟨site, .cell ⟨6⟩, bound⟩ :=
    .scope (.inl rfl) hlet (.cons (.value ⟨_, rfl, rfl⟩ (hnumber _ _ _)) .nil) .nil
  obtain ⟨e, expanded, hexpands⟩ : ∃ e expanded,
      (BuiltinMacro.unlessTrue.expand site.room [.nil, .cell ⟨9⟩]).run bound = .ok e expanded :=
    ⟨_, _, rfl⟩
  have hform : bound.ListOf (.cell ⟨6⟩) (.sym ⟨"unless"⟩ :: .nil :: ([] ++ [.cell ⟨9⟩])) :=
    ⟨_, rfl, rfl⟩
  have hunless : HandsOn ⟨site, .cell ⟨6⟩, bound⟩ ⟨site, .cell ⟨9⟩, expanded⟩ := by
    refine .unlessTrue hform hexpands ⟨rfl, rfl, rfl, rfl, rfl, rfl⟩
      (.atom (fun _ => rfl) _) rfl ?_ .nil
    cases hexpands
    rfl
  have hnests : Relation.ReflTransGen Nests guardedCall ⟨site, .cell ⟨9⟩, expanded⟩ := by
    refine .tail (.single ⟨rfl, hscope⟩) ⟨?_, hunless⟩
    rfl
  have hcall : Calls ⟨site, .cell ⟨9⟩, expanded⟩ ⟨0⟩ [.int 2] expanded := by
    cases hexpands
    exact .named rfl rfl ⟨rfl, rfl, rfl, rfl, rfl, rfl⟩
      (.cons (Site.value_of_bound rfl rfl) Site.gives_nil)
  have haccepts : (expanded.closure ⟨0⟩).formals.Accepts 1 := by
    cases hexpands
    exact ⟨Nat.le_refl 1, fun _ => Nat.le_refl 1⟩
  obtain ⟨env, w', hbind, hanswers⟩ := answers_call rfl guardedCall_sound hnests hcall haccepts
  cases hexpands
  cases hbind
  exact ⟨rfl, guardedCall_sound, _, _, hnests, hcall, haccepts, _, hanswers, rfl⟩

end Spot

end TemplateLisp
