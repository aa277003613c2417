import TemplateLisp.Proofs.TemplateRuns

/-!
# Steps of copying a template

While a template is copied, the pairs, vectors and maps of the copy are out of reach of the program:
nothing but the copying itself refers to them. They are kept in a reserve (`Copying.Holds`), so the
evaluation of an operand leaves them as they were made. What is true of a part of the copy in all
worlds in which the reserve is as it is (`Copying.Lasting`) is still true when the copy is complete.

This module has the steps: an object is made, the operand of a hole is evaluated, a marker form is
recognised.
-/

namespace TemplateLisp

namespace World

/-- The value and all that is inside of it are made of the same parts in both worlds. -/
def SameInside (w₀ : World) (t : Value) (w : World) : Prop :=
  ∀ x, w₀.Includes t x → w.components x = w₀.components x

variable {w w₀ : World} {t v : Value}

theorem cell_of_components {r : CellRef} (h : w.components (.cell r) = w₀.components (.cell r)) :
    (w.cell r).car = (w₀.cell r).car ∧ (w.cell r).cdr = (w₀.cell r).cdr := by
  have hparts : [(w.cell r).car, (w.cell r).cdr] = [(w₀.cell r).car, (w₀.cell r).cdr] := h
  simpa using hparts

theorem entryValues_injective {es fs : List (Value × Value)} (h : entryValues es = entryValues fs) :
    es = fs := by
  induction es generalizing fs with
  | nil =>
    cases fs with
    | nil => rfl
    | cons => cases h
  | cons e es ih =>
    cases fs with
    | nil => cases h
    | cons f fs =>
      obtain ⟨k, v⟩ := e
      obtain ⟨l, u⟩ := f
      have hparts : k :: v :: entryValues es = l :: u :: entryValues fs := h
      obtain ⟨rfl, rfl, hrest⟩ : k = l ∧ v = u ∧ entryValues es = entryValues fs := by
        simpa using hparts
      rw [ih hrest]

/-- Where there is only more, a value is made of the same parts. -/
theorem Extends.components (h : w₀.Extends w) (hv : w₀.InRange v) :
    w.components v = w₀.components v := by
  cases v with
  | map r => rw [components_map, components_map, h.entries_eq hv]
  | _ => exact h.toKeeps.ownParts hv

/-- A form is read as it was. -/
theorem SameInside.operand? (h : w₀.SameInside t w) (hv : w₀.Includes t v) (name : String) :
    w.operand? name v = w₀.operand? name v := by
  cases v with
  | cell r =>
    obtain ⟨hcar, hcdr⟩ := cell_of_components (h _ hv)
    have hrest : w₀.Includes t (w₀.cell r).cdr :=
      hv.tail (List.mem_cons_of_mem _ List.mem_cons_self)
    unfold World.operand?
    dsimp only
    rw [hcar, hcdr]
    generalize (w₀.cell r).car = head
    generalize (w₀.cell r).cdr = rest at hrest
    cases head with
    | sym s =>
      cases rest with
      | cell q =>
        obtain ⟨hcar', hcdr'⟩ := cell_of_components (h _ hrest)
        dsimp only
        rw [hcar', hcdr']
      | _ => rfl
    | _ => rfl
  | _ => rfl

/-- A map has the entries that it had. -/
theorem SameInside.entries {r : MapRef} (h : w₀.SameInside t w) (hr : w₀.Includes t (.map r)) :
    w.entries r = w₀.entries r := by
  have hparts := h _ hr
  rw [components_map, components_map] at hparts
  exact entryValues_injective hparts

end World

/-! ## What has been copied -/

/-- A template that exists, and where it is copied. -/
structure Copying where
  world : World
  template : Value
  site : Site

namespace Copying

/-- The template and the site exist. -/
structure Sound (c : Copying) : Prop extends c.site.SoundIn c.world where
  template : c.world.InRange c.template

/-- The value is a part of the template. -/
def Includes (c : Copying) (v : Value) : Prop := c.world.Includes c.template v

/-- The template is made of the same parts as before. -/
def Kept (c : Copying) (w : World) : Prop := c.world.SameInside c.template w

/-- A world in the middle of copying. What has been copied so far is in the reserve. -/
structure Holds (c : Copying) (s : Reserve) (w : World) : Prop where
  grows : c.world.Grows w
  kept : c.Kept w
  safe : s.Safe w
  newer : s.Newer c.world

/-- More has been copied. -/
structure Progress (c : Copying) (s : Reserve) (w : World) (s' : Reserve) (w' : World) : Prop where
  le : s.Le s'
  same : s.Same w w'
  grows : w.Grows w'
  holds : c.Holds s' w'

/-- True in all later worlds in which the reserve is as it is. -/
def Lasting (s : Reserve) (w : World) (P : World → Prop) : Prop :=
  ∀ w', s.Same w w' → w.Grows w' → P w'

variable {c : Copying} {s s' s'' : Reserve} {w w' w'' : World} {v : Value} {P : World → Prop}

theorem Holds.start (h : c.Sound) : c.Holds .none c.world :=
  ⟨.refl _, fun _ _ => rfl, Reserve.safe_none h.sound, .none _⟩

theorem Holds.progress (h : c.Holds s w) : c.Progress s w s w := ⟨.refl, .refl, .refl w, h⟩

theorem Progress.trans (h : c.Progress s w s' w') (h' : c.Progress s' w' s'' w'') :
    c.Progress s w s'' w'' :=
  ⟨h.le.trans h'.le, h.same.trans (h'.same.mono h.le), h.grows.trans h'.grows, h'.holds⟩

/-- Objects have been made. -/
theorem Holds.extends (h : c.Holds s w) (hc : c.Sound) (hw : w.Extends w') (hsound : w'.Sound) :
    c.Progress s w (s.since w w') w' where
  le := s.le_since w w'
  same := h.safe.apart.extends hw
  grows := hw.toGrows
  holds :=
    { grows := h.grows.trans hw.toGrows
      kept := fun x hx => by
        rw [hw.components ((hc.sound.includes hc.template hx).mono h.grows), h.kept x hx]
      safe := h.safe.since hw hsound
      newer := h.newer.since h.grows w' }

/-- A form has been evaluated. -/
theorem Holds.evaluated (h : c.Holds s w) (hkept : s.Kept w w') (hc : c.Kept w') :
    c.Progress s w s w' :=
  ⟨.refl, hkept.toSame, hkept.grows, h.grows.trans hkept.grows, hc, hkept.safe, h.newer⟩

theorem Lasting.now (h : Lasting s w P) : P w := h w .refl (.refl w)

theorem Lasting.later (h : Lasting s w P) (hc : c.Progress s w s' w') : Lasting s' w' P :=
  fun w'' hsame hgrows => h w'' (hc.same.trans (hsame.mono hc.le)) (hc.grows.trans hgrows)

/-- What has been copied since, with a property that lasts. -/
def Produced {α : Type} (c : Copying) (s : Reserve) (w : World) (fits : World → α → Prop)
    (R : List (List Value) → α → World → Prop) (found : List (List Value)) (w' : World) (a : α) :
    Prop :=
  ∃ s', c.Progress s w s' w' ∧ fits w' a ∧ Lasting s' w' (R found a)

/-- What was true after the first part of a copy is so after the second. -/
theorem Produced.after {α : Type} {fits : World → α → Prop}
    {R R' : List (List Value) → α → World → Prop} {found found' : List (List Value)} {a : α}
    (h : c.Produced s' w' fits R found w'' a) (hprogress : c.Progress s w s' w')
    (hP : Lasting s' w' P) (hR : ∀ u, P u → R found a u → R' found' a u) :
    c.Produced s w fits R' found' w'' a := by
  obtain ⟨s'', hlater, hfits, hlast⟩ := h
  exact ⟨s'', hprogress.trans hlater, hfits, fun u hsame hgrows =>
    hR u (hP.later hlater u hsame hgrows) (hlast u hsame hgrows)⟩

/-! ## Steps of copying -/

/-- A run in the middle of copying that has the holes. -/
abbrev Runs {α : Type} (c : Copying) (e : Evaluator) (Q : List (List Value) → World → α → Prop)
    (w : World) (os : List Occurrence) (x : Run α) : Prop :=
  TemplateRun e c.site c.Kept Q w os (x.run w)

section
variable {e : Evaluator} {α : Type} {inner : Site} {o : Occurrence} {os : List Occurrence}

/-- The list of the items is new. -/
theorem Holds.listWithTail (h : c.Holds s w) (hc : c.Sound) (items : List Value) (tail : Value)
    (hitems : ∀ v ∈ items, w.InRange v) (htail : w.InRange tail) :
    c.Runs e (c.Produced s w World.InRange fun found v u =>
      found = [] ∧ u.ListWithTail items tail v)
      w [] (Run.listWithTail items tail) := by
  have hgood := (Reserve.safe_none h.safe.sound).good
  have hvalid : (Invariant.untouched .none w).ValidAll w items :=
    fun v hv _ => Reserve.admits_none_iff.2 (hitems v hv)
  obtain ⟨hevolves, hlist⟩ := hgood.evolves_addList hvalid fun _ => Reserve.admits_none_iff.2 htail
  have hw := w.extends_addList items tail
  have hprogress := h.extends hc hw ((hgood.evolves hevolves).sound trivial)
  refine .make rfl hw ⟨_, hprogress, (hlist trivial).inRange, fun u hsame _ => ⟨rfl, ?_⟩⟩
  exact w.listWithTail_addList items tail fun r hr hlt => hsame.cell r (.inr ⟨hr, hlt⟩)

/-- The vector of the items is new. -/
theorem Holds.vector (h : c.Holds s w) (hc : c.Sound) {items : List Value}
    (hitems : ∀ v ∈ items, w.InRange v) :
    c.Runs e (c.Produced s w World.InRange fun found v u =>
      found = [] ∧ ∃ r, v = .vector r ∧ u.vector r = items) w [] (Run.vector items) := by
  have hchange : (Rules.mk True True).Change w (w.addVector items).2 :=
    .vector fun v hv _ => hitems v hv
  have hsize : (w.addVector items).1.index < (w.addVector items).2.vectors.size := by
    simp [World.addVector]
  have hrun : (Run.vector items).run w = .ok (.vector (w.addVector items).1)
    (w.addVector items).2 :=
    rfl
  have hw := w.extends_addVector items
  have hprogress := h.extends hc hw (hchange.sound trivial h.safe.sound)
  refine .make hrun hw ⟨_, hprogress, hsize, fun u hsame _ => ⟨rfl, _, rfl, ?_⟩⟩
  exact (hsame.vector _ (.inr ⟨Nat.le_refl _, hsize⟩)).trans
    ((w.vector_addVector items _).trans (if_pos rfl))

/-- The map of the entries is new. -/
theorem Holds.map (h : c.Holds s w) (hc : c.Sound) {es : List (Value × Value)}
    (hes : ∀ e ∈ es, w.InRange e.1 ∧ w.InRange e.2) :
    c.Runs e (c.Produced s w World.InRange fun found v u =>
      found = [] ∧ ∃ r, v = .map r ∧ u.entries r = es) w [] (Run.map es) := by
  have hchange : (Rules.mk True True).Change w (w.addMap es).2 :=
    .map fun e he => ⟨fun _ => (hes e he).1, fun _ => (hes e he).2⟩
  have hsize : w.maps.size < (w.addMap es).2.maps.size := by simp [World.addMap]
  have hrun : (Run.map es).run w = .ok (.map (w.addMap es).1) (w.addMap es).2 := rfl
  have hw := w.extends_addMap es
  have hprogress := h.extends hc hw (hchange.sound trivial h.safe.sound)
  refine .make hrun hw ⟨_, hprogress, hsize, fun u hsame _ => ⟨rfl, _, rfl, ?_⟩⟩
  exact (hsame.entries _ (.inr ⟨Nat.le_refl _, hsize⟩)).trans
    ((w.entries_addMap es _).trans (if_pos rfl))

/-- The operand of a hole is evaluated. What comes next starts from its value, unless the template
has been changed. -/
theorem Holds.value {Q : List (List Value) → World → α → Prop} {f : Value → Run α} (h : c.Holds s w)
    (hc : c.Sound) (he : e.LeavesReserves) (hinner : c.site.Within inner)
    (ho : c.Includes o.operand) (hplaced : ¬ o.Misplaced)
    (hf : ∀ x w₁, (e.value inner o.operand).run w = .ok x w₁ → c.Progress s w s w₁ → w₁.InRange x →
      TemplateRun e c.site c.Kept Q w (o :: os) ((f x).run w₁)) :
    c.Runs e Q w (o :: os) (e.value inner o.operand >>= f) := by
  rw [Runs, EStateM.run_bind]
  have hframe : s.Admits w (.env inner.env) := by
    have hexists : c.world.InRange (.env c.site.env) := hc.frame
    rw [hinner.env]
    exact h.newer.admits h.grows hexists
  have hoperand : s.Admits w o.operand :=
    h.newer.admits h.grows (hc.sound.includes hc.template ho)
  cases hrun : (e.value inner o.operand).run w with
  | error stop w₁ => exact .stops (.refl w) hinner hplaced hrun
  | ok x w₁ =>
    obtain ⟨hkept, hx⟩ := he s w w₁ inner o.operand x h.safe hframe hoperand hrun
    by_cases hsame : c.Kept w₁
    · exact hf x w₁ hrun (h.evaluated hkept hsame) hx.inRange
    · exact .changed (.refl w) hinner hplaced hrun hsame

/-- An unquote contributes its value. -/
theorem Holds.unquote (h : c.Holds s w) (hc : c.Sound) (he : e.LeavesReserves)
    (hinner : c.site.Within inner) (ho : c.Includes o.operand) (hunquote : o.marker = .unquote) :
    c.Runs e (c.Produced s w World.InRange fun found v _ => found = [[v]]) w [o]
      (e.value inner o.operand) := by
  have hplaced : ¬ o.Misplaced := fun hsplice => nomatch hunquote.symm.trans hsplice.1
  rw [← bind_pure (e.value inner o.operand)]
  refine h.value hc he hinner ho hplaced fun x w₁ hrun hprogress hx => ?_
  exact .next (.refl w) hinner hplaced hrun hprogress.holds.kept (.value hunquote)
    (.done (.refl w₁) ⟨s, hprogress, hx, fun _ _ _ => rfl⟩)

/-- A splice contributes the elements of its value. -/
theorem Holds.splice (h : c.Holds s w) (hc : c.Sound) (he : e.LeavesReserves)
    (hinner : c.site.Within inner) (ho : c.Includes o.operand) (hsplicing : o.marker = .splicing)
    (helement : o.element = true) :
    c.Runs e (c.Produced s w (fun u vs => ∀ v ∈ vs, u.InRange v) fun found vs _ =>
      found = [vs]) w [o]
      (e.value inner o.operand >>= Quasiquote.spliced inner.room) := by
  have hplaced : ¬ o.Misplaced := fun hsplice => nomatch helement.symm.trans hsplice.2
  refine h.value hc he hinner ho hplaced fun x w₁ hrun hprogress hx => ?_
  rcases Quasiquote.spliced_cases inner.room x w₁ with ⟨items, hitems, hend⟩ | ⟨stop, hstop, hend⟩
  · rw [hend]
    refine .next (.refl w) hinner hplaced hrun hprogress.holds.kept (.elements hsplicing hitems)
      (.done (.refl w₁) ⟨s, hprogress, ?_, fun _ _ _ => rfl⟩)
    exact hitems.inRange hprogress.holds.safe.sound hx
  · rw [hend]
    exact .splicesNot (.refl w) hinner hsplicing hplaced hrun hstop

end

/-! ## Marker forms -/

section
variable {e : Evaluator} {inner : Site} {os : List Occurrence} {r : CellRef} {x : Value}
  {n nesting : Nat} {Q : List (List Value) → World → Value → Prop}

/-- A live unquote is replaced by its value. -/
theorem runs_unquote (hinner : c.site.Within inner)
    (hform : w.operand? Marker.unquote.name (.cell r) = some x)
    (h : ∀ inner, c.site.Within inner → c.Runs e Q w os (e.value inner x)) :
    c.Runs e Q w os (Quasiquote.copy e (n + 1) inner 0 (.cell r)) := by
  rw [Runs, Quasiquote.copy]
  refine .deeper hinner fun inner hinner => ?_
  rw [Run.run_look_bind]
  rw [show w.operand? "unquote" (.cell r) = some x from hform]
  exact h inner hinner

/-- A live splice that is no element is refused. -/
theorem runs_misplaced (hinner : c.site.Within inner) {o : Occurrence}
    (hform : w.operand? Marker.splicing.name (.cell r) = some x) (ho : o.Misplaced) :
    c.Runs e Q w (o :: os) (Quasiquote.copy e (n + 1) inner 0 (.cell r)) := by
  rw [Runs, Quasiquote.copy]
  refine .deeper hinner fun inner hinner => ?_
  have hunquote : w.operand? "unquote" (.cell r) = none := World.operand?_other .unquote hform nofun
  rw [Run.run_look_bind, hunquote, Run.run_look_bind]
  rw [show w.operand? "unquote-splicing" (.cell r) = some x from hform]
  exact .misplaced (.refl w) ho

/-- A marker form that is not live is copied. Its operand lies on another level. -/
theorem runs_marked (hinner : c.site.Within inner) {m : Marker}
    (hform : w.operand? m.name (.cell r) = some x) (hm : m.isHole = true → nesting ≠ 0)
    (h : ∀ inner, c.site.Within inner →
      c.Runs e Q w os
        (Quasiquote.copy e n inner (m.inside nesting) x >>= Quasiquote.marked m.name)) :
    c.Runs e Q w os (Quasiquote.copy e (n + 1) inner nesting (.cell r)) := by
  rw [Runs, Quasiquote.copy]
  refine .deeper hinner fun inner hinner => ?_
  cases m with
  | unquote =>
    obtain ⟨d, rfl⟩ : ∃ d, nesting = d + 1 := Nat.exists_eq_succ_of_ne_zero (hm rfl)
    rw [Run.run_look_bind]
    rw [show w.operand? "unquote" (.cell r) = some x from hform]
    exact h inner hinner
  | splicing =>
    obtain ⟨d, rfl⟩ : ∃ d, nesting = d + 1 := Nat.exists_eq_succ_of_ne_zero (hm rfl)
    have hunquote : w.operand? "unquote" (.cell r) = none :=
      World.operand?_other .unquote hform nofun
    rw [Run.run_look_bind, hunquote, Run.run_look_bind]
    rw [show w.operand? "unquote-splicing" (.cell r) = some x from hform]
    exact h inner hinner
  | quasiquote =>
    have hunquote : w.operand? "unquote" (.cell r) = none :=
      World.operand?_other .unquote hform nofun
    have hsplicing : w.operand? "unquote-splicing" (.cell r) = none :=
      World.operand?_other .splicing hform nofun
    rw [Run.run_look_bind, hunquote, Run.run_look_bind, hsplicing, Run.run_look_bind]
    rw [show w.operand? "quasiquote" (.cell r) = some x from hform]
    exact h inner hinner

end

end Copying

end TemplateLisp
