import TemplateLisp.Proofs.CallPaths
import TemplateLisp.Proofs.ReservesKept

/-!
# What forms come to

What is said of an evaluation with enough fuel is put together from what is said of its parts
(`Run.ComesTo.bind`). This module has the parts that many forms share: forms that have a value,
forms that are evaluated one after the other, calls of special forms and of macros. Where nesting is
unbounded, a form is evaluated at the same site as what it is a part of.
-/

namespace TemplateLisp

/-! ## Lists of forms -/

namespace World

/-- The value is a proper list of the items. -/
def ListOf (w : World) (v : Value) (items : List Value) : Prop :=
  ∃ cells, w.spine? v = some (cells, .nil) ∧ cells.map (·.car) = items

variable {w w' : World} {v : Value} {items : List Value}

theorem ListOf.nil (w : World) : w.ListOf .nil [] := ⟨[], rfl, rfl⟩

/-- A list that is not empty is a pair. -/
theorem ListOf.cons_inv {item : Value} (h : w.ListOf v (item :: items)) :
    ∃ r, v = .cell r ∧ (w.cell r).car = item ∧ w.ListOf (w.cell r).cdr items := by
  obtain ⟨cells, hspine, hcells⟩ := h
  obtain ⟨rest, hrest, hspine, hlength⟩ := spine_of_spineAt hspine
  obtain rfl : cells = rest := hrest
  cases hspine with
  | stop => cases hcells
  | @pair r cells _ hspine =>
    obtain ⟨hcar, hitems⟩ := List.cons.inj hcells
    refine ⟨r, rfl, hcar, cells, hspine.spineAt ?_ [], hitems⟩
    simp only [List.length_cons] at hlength
    omega

/-- A list without elements is `nil`. -/
theorem ListOf.nil_inv (h : w.ListOf v []) : v = .nil := by
  obtain ⟨cells, hspine, hcells⟩ := h
  obtain ⟨rest, hrest, hspine, -⟩ := spine_of_spineAt hspine
  obtain rfl : cells = rest := hrest
  cases hspine with
  | stop => rfl
  | pair => cases hcells

/-- The elements of a list exist where the list does. -/
theorem ListOf.inRange (h : w.ListOf v items) (hw : w.Sound) (hv : w.InRange v) :
    ∀ x ∈ items, w.InRange x := by
  obtain ⟨cells, hspine, rfl⟩ := h
  have hgood := (Reserve.safe_none hw).good
  have hvalid : (Invariant.untouched .none w).Valid w v := fun _ => Reserve.admits_none_iff.2 hv
  exact fun x hx => ((hgood.spineAt _ Invariant.validAll_nil hvalid hspine).1 x hx).rules trivial

theorem ListOf.properItems (h : w.ListOf v items) (room : Room) :
    (Run.properItems room v).run w = .ok items w := by
  obtain ⟨cells, hspine, rfl⟩ := h
  rw [Run.properItems, EStateM.run_bind, Run.spine, Run.run_lookOrStop, hspine]
  rfl

/-- A new list has its elements in each world in which its pairs are as they were made. -/
theorem listOf_addList (w : World) (items : List Value)
    (hsize : (w.addList items .nil).2.cells.size ≤ w'.cells.size)
    (hw : ∀ r : CellRef, w.cells.size ≤ r.index → r.index < (w.addList items .nil).2.cells.size →
      w'.cell r = (w.addList items .nil).2.cell r) :
    w'.ListOf (w.addList items .nil).1 items := by
  obtain ⟨cells, hspine, hitems⟩ := w.spine_addList items hw
  refine ⟨cells, hspine.spineAt ?_ [], hitems⟩
  have hlength : cells.length = items.length := by rw [← hitems, List.length_map]
  rw [size_addList] at hsize
  omega

/-- A proper list whose pairs have all been made since the world `old`. -/
inductive NewPairs (old w : World) : Value → Prop
  | nil : NewPairs old w .nil
  | pair {r : CellRef} : old.cells.size ≤ r.index → r.index < w.cells.size →
    NewPairs old w (w.cell r).cdr → NewPairs old w (.cell r)

/-- The value is a proper list of the items, made since the world `old`. -/
def NewList (old w : World) (v : Value) (items : List Value) : Prop :=
  w.ListOf v items ∧ NewPairs old w v

variable {old : World}

/-- A list that has just been made is new in each world in which its pairs are as they were made. -/
theorem newList_addList (w : World) (items : List Value)
    (hsize : (w.addList items .nil).2.cells.size ≤ w'.cells.size)
    (hw : ∀ r : CellRef, w.cells.size ≤ r.index → r.index < (w.addList items .nil).2.cells.size →
      w'.cell r = (w.addList items .nil).2.cell r) :
    NewList w w' (w.addList items .nil).1 items := by
  refine ⟨listOf_addList w items hsize hw, ?_⟩
  induction items with
  | nil => exact .nil
  | cons item items ih =>
    have hcells : (w.addList (item :: items) .nil).2.cells.size =
        (w.addList items .nil).2.cells.size + 1 := by
      rw [size_addList, size_addList, List.length_cons, Nat.add_assoc]
    have hbehind : w.cells.size ≤ (w.addList items .nil).2.cells.size := by
      rw [size_addList]
      exact Nat.le_add_right _ _
    have hfirst :=
      hw ⟨(w.addList items .nil).2.cells.size⟩ hbehind (by rw [hcells]; exact Nat.lt_succ_self _)
    rw [addList_cons] at hfirst ⊢
    rw [cell_addCell, if_pos rfl] at hfirst
    rw [hcells] at hsize
    refine .pair hbehind hsize ?_
    rw [hfirst]
    refine ih (by omega) fun r hr hlt => ?_
    rw [hw r hr (by omega), addList_cons, cell_addCell, if_neg (Nat.ne_of_lt hlt)]

/-- A list of existing pairs stays as it is where they stay. -/
theorem NewPairs.keeps (h : NewPairs old w v) (hw : w.Keeps w') : NewPairs old w' v := by
  induction h with
  | nil => exact .nil
  | @pair r hold hr _ ih =>
    rw [← hw.cell r hr] at ih
    exact .pair hold (Nat.lt_of_lt_of_le hr hw.cells) ih

theorem NewPairs.since {older : World} (h : NewPairs old w v)
    (hle : older.cells.size ≤ old.cells.size) :
    NewPairs older w v := by
  induction h with
  | nil => exact .nil
  | pair hold hr _ ih => exact .pair (Nat.le_trans hle hold) hr ih

theorem NewPairs.spine (h : NewPairs old w v) (hw : w.Keeps w') {cells : List Cell} {tail : Value}
    (hspine : w.Spine v cells tail) : w'.Spine v cells tail := by
  induction h generalizing cells with
  | nil =>
    cases hspine
    exact .stop nofun
  | @pair r _ hr _ ih =>
    cases hspine with
    | stop hv => exact absurd rfl (hv r)
    | @pair _ cells _ hrest =>
      rw [← hw.cell r hr]
      refine .pair ?_
      rw [hw.cell r hr]
      exact ih hrest

theorem NewList.keeps (h : NewList old w v items) (hw : w.Keeps w') : NewList old w' v items := by
  obtain ⟨⟨cells, hspine, hitems⟩, hnew⟩ := h
  obtain ⟨rest, hrest, hspine, hlength⟩ := spine_of_spineAt hspine
  obtain rfl : cells = rest := hrest
  refine ⟨⟨cells, (hnew.spine hw hspine).spineAt ?_ [], hitems⟩, hnew.keeps hw⟩
  have hcells := hw.cells
  omega

theorem NewList.since {older : World} (h : NewList old w v items)
    (hle : older.cells.size ≤ old.cells.size) : NewList older w v items := ⟨h.1, h.2.since hle⟩

end World

theorem Run.run_list (items : List Value) (w : World) :
    (Run.list items).run w = .ok (w.addList items .nil).1 (w.addList items .nil).2 := rfl

/-! ## Evaluating parts of a form -/

namespace Evaluator

variable (e : Evaluator) {site : Site} {w w₁ : World} {r : CellRef} {s : Symbol} {args : List Value}

/-- A head that is no symbol is evaluated. -/
theorem run_head [Host] (hcar : ∀ s, (w.cell r).car ≠ .sym s) (n : Nat) (tail : Bool) :
    (e.form n tail site r).run w =
      (e.value site (w.cell r).car >>= fun f =>
        e.callHead n tail site r (w.cell r).car f).run w := by
  rw [form, Run.run_look_bind]
  cases hhead : (w.cell r).car with
  | sym s => exact absurd hhead (hcar s)
  | _ => rfl

/-- A function is called with the values of the arguments. -/
theorem run_callHead [Host] {head f : Value} (hf : f.isCallable = true) (n : Nat) (tail : Bool) :
    (e.callHead n tail site r head f).run w =
      (e.arguments site n [] (w.cell r).cdr >>= fun args => e.apply n tail site f args).run w := by
  rw [callHead, if_pos hf, Run.run_look_bind]

/-- A special form gets the list behind its name. -/
theorem run_specialForm [Host] {f : SpecialForm} (hcar : (w.cell r).car = .sym s)
    (htransformer : w.transformer? site.macros s = none)
    (hname : SpecialForm.ofName? s.name = some f) (n : Nat) (tail : Bool) :
    (e.form n tail site r).run w =
      (specialArguments site (w.cell r).cdr >>= fun args => f.run e n tail site args).run w := by
  rw [form, Run.run_look_bind, hcar]
  dsimp only
  rw [symbolForm, Run.run_look_bind, htransformer]
  dsimp only
  rw [hname]
  dsimp only
  rw [Run.run_look_bind]

/-- A macro gets the elements of what is behind its name, and the expansion is evaluated. -/
theorem run_macroForm [Host] {t : Transformer} (hcar : (w.cell r).car = .sym s)
    (htransformer : w.transformer? site.macros s = some t) (n : Nat) (tail : Bool) :
    (e.form n tail site r).run w = (macroArguments site.room (w.cell r).cdr >>= fun args =>
      e.expand site args t >>= e.eval tail site).run w := by
  rw [form, Run.run_look_bind, hcar]
  dsimp only
  rw [symbolForm, Run.run_look_bind, htransformer]
  dsimp only
  rw [Run.run_look_bind]

/-- What a special form does. -/
theorem run_special [Host] {f : SpecialForm} (hcar : (w.cell r).car = .sym s)
    (hargs : w.ListOf (w.cell r).cdr args) (htransformer : w.transformer? site.macros s = none)
    (hname : SpecialForm.ofName? s.name = some f) (n : Nat) (tail : Bool) :
    (e.form n tail site r).run w = (f.run e n tail site args).run w := by
  have hlist : (specialArguments site (w.cell r).cdr).run w = .ok args w := by
    cases args with
    | nil => rw [hargs.nil_inv]; rfl
    | cons v vs =>
      obtain ⟨q, hq, -, -⟩ := hargs.cons_inv
      rw [hq] at hargs ⊢
      exact hargs.properItems site.room
  rw [e.run_specialForm hcar htransformer hname, EStateM.run_bind, hlist]

/-- What a call of a macro does. -/
theorem run_expansion [Host] {t : Transformer} {expansion : Value} (hcar : (w.cell r).car = .sym s)
    (hargs : w.ListOf (w.cell r).cdr args) (htransformer : w.transformer? site.macros s = some t)
    (hexpand : (e.expand site args t).run w = .ok expansion w₁) (n : Nat) (tail : Bool) :
    (e.form n tail site r).run w = (e.eval tail site expansion).run w₁ := by
  have hlist : (macroArguments site.room (w.cell r).cdr).run w = .ok args w := by
    obtain ⟨cells, hspine, rfl⟩ := hargs
    obtain ⟨c, hcursor, hitems⟩ := World.toList_of_spine? hspine site.room
    unfold macroArguments
    split
    · rename_i m hm
      rw [hm] at hspine
      cases hspine
    · rw [Run.run_look_bind, hcursor]
      exact hitems
  rw [e.run_macroForm hcar htransformer, EStateM.run_bind, hlist]
  dsimp only
  rw [EStateM.run_bind, hexpand]

end Evaluator

namespace Site

/-- From `w`, the form has the value `v`, and the world is `w'` then. -/
def HasValue [Host] (site : Site) (w : World) (form v : Value) (w' : World) : Prop :=
  Run.ComesTo (fun n => (evaluator n).value site form) w (.ok v w')

/-- From `w`, the form is answered, and the world is `w'` then. -/
def Answers [Host] (site : Site) (w : World) (form : Value) {tail : Bool} (a : Answer tail)
    (w' : World) :
    Prop :=
  Run.ComesTo (fun n => eval n tail site form) w (.ok a w')

/-- From `w`, the forms have values of a kind one after the other, and the world is `w'` then. -/
inductive Evaluates [Host] (site : Site) (P : Value → Prop) : World → List Value →
    World → Prop where
  | nil {w : World} : Evaluates site P w [] w
  | cons {w w₁ w' : World} {form v : Value} {forms : List Value} (value : site.HasValue w form v w₁)
      (kind : P v) (rest : Evaluates site P w₁ forms w') : Evaluates site P w (form :: forms) w'

variable {site : Site} {w w₁ w' : World} {form : Value} {tail : Bool}

theorem HasValue.of_answers [Host] {v : Value}
    (h : site.Answers w form (.value v : Answer false) w') :
    site.HasValue w form v w' :=
  Run.ComesTo.bind h (.of_forall fun _ => rfl)

/-- A value that is no form, symbol, vector or map is its own value. -/
theorem HasValue.atom [Host] {v : Value} (hv : ∀ n, eval (n + 1) false site v = pure (.value v))
    (w : World) : site.HasValue w v v w := by
  refine Run.comesTo_succ.1 (.of_forall fun n => ?_)
  show (eval (n + 1) false site v >>= _).run w = _
  rw [hv]
  rfl

/-- Forms in a sequence, up to the last one. -/
theorem Evaluates.sequence [Host] {P : Value → Prop} {forms : List Value} {last : Value}
    {a : Answer tail} {w₂ : World} (h : site.Evaluates P w forms w')
    (hlast : site.Answers w' last a w₂) :
    Run.ComesTo (fun n => (evaluator n).sequence tail site (forms ++ [last])) w (.ok a w₂) := by
  induction h with
  | nil => exact hlast
  | @cons _ _ _ _ _ forms value _ _ ih =>
    obtain ⟨v, vs, hrest⟩ : ∃ v vs, forms ++ [last] = v :: vs :=
      List.exists_cons_of_ne_nil (by simp)
    rw [hrest] at ih
    rw [List.cons_append, hrest]
    exact .bind (.bind value (.of_forall fun _ => rfl)) (ih hlast)

/-! ### Sound worlds -/

/-- Everything that is referred to exists, and so does the frame of the site. -/
structure SoundIn (site : Site) (w : World) : Prop where
  sound : w.Sound
  frame : site.env.index < w.frames.size

theorem SoundIn.mono (h : site.SoundIn w) (hw : w'.Sound) (hgrows : w.Grows w') : site.SoundIn w' :=
  ⟨hw, Nat.lt_of_lt_of_le h.frame hgrows.frames⟩

/-- Values exist where their forms do, and nothing gets lost. -/
theorem HasValue.soundIn [Host] {v : Value} (h : site.HasValue w form v w') (hw : site.SoundIn w)
    (hform : w.InRange form) : site.SoundIn w' ∧ w.Grows w' ∧ w'.InRange v := by
  obtain ⟨-, n, hn⟩ := h
  obtain ⟨hkept, hv⟩ := (Reserve.safe_none hw.sound).value (Reserve.admits_none_iff.2 hw.frame)
    (Reserve.admits_none_iff.2 hform) (hn n (Nat.le_refl n))
  exact ⟨hw.mono hkept.safe.sound hkept.grows, hkept.grows, hv.inRange⟩

theorem Evaluates.soundIn [Host] {P : Value → Prop} {forms : List Value}
    (h : site.Evaluates P w forms w') (hw : site.SoundIn w) (hforms : ∀ v ∈ forms, w.InRange v) :
    site.SoundIn w' ∧ w.Grows w' := by
  induction h with
  | nil => exact ⟨hw, .refl _⟩
  | cons value _ _ ih =>
    obtain ⟨hw₁, hgrows, -⟩ := value.soundIn hw (hforms _ List.mem_cons_self)
    obtain ⟨hw', hgrows'⟩ := ih hw₁ fun v hv => (hforms v (List.mem_cons_of_mem _ hv)).mono hgrows
    exact ⟨hw', hgrows.trans hgrows'⟩

/-! ### Where nesting is unbounded -/

section
variable (hroom : site.room = .unbounded)
include hroom

/-- A form is evaluated at its site, and a place makes no difference to an answer. -/
theorem answers_cell [Host] {r : CellRef} {a : Answer tail}
    (h : Run.ComesTo (fun n => (evaluator n).form n tail site r) w (.ok a w')) :
    site.Answers w (.cell r) a w' := by
  obtain ⟨-, k, hk⟩ := h
  refine Run.comesTo_succ.1 ⟨nofun, k, fun n hn => ?_⟩
  show ((evaluator n).any n tail site (.cell r)).run w = _
  rw [Evaluator.any, site.deeper_of_unbounded hroom, pure_bind, Run.run_look_bind, Run.placed,
    Run.run_tryCatch, hk n hn]

variable {s : Symbol} {args : List Value} {a : Answer tail}

theorem answers_special [Host] {f : SpecialForm} (hform : w.ListOf form (.sym s :: args))
    (htransformer : w.transformer? site.macros s = none)
    (hname : SpecialForm.ofName? s.name = some f)
    (h : Run.ComesTo (fun n => f.run (evaluator n) n tail site args) w (.ok a w')) :
    site.Answers w form a w' := by
  obtain ⟨r, rfl, hcar, hargs⟩ := hform.cons_inv
  refine answers_cell hroom ?_
  simpa only [Run.ComesTo, (evaluator _).run_special hcar hargs htransformer hname] using h

theorem answers_macro [Host] {m : BuiltinMacro} {expansion : Value}
    (hform : w.ListOf form (.sym s :: args))
    (htransformer : w.transformer? site.macros s = some (.builtin m))
    (hexpand : (m.expand site.room args).run w = .ok expansion w₁)
    (h : site.Answers w₁ expansion a w') : site.Answers w form a w' := by
  obtain ⟨r, rfl, hcar, hargs⟩ := hform.cons_inv
  refine answers_cell hroom ?_
  have hrun (n : Nat) : ((evaluator n).form n tail site r).run w =
      (eval n tail site expansion).run w₁ :=
    (evaluator n).run_expansion hcar hargs htransformer hexpand n tail
  simpa only [Answers, Run.ComesTo, hrun] using h

end

end Site

end TemplateLisp
