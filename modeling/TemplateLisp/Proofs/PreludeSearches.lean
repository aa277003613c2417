import TemplateLisp.Proofs.CallTraces
import TemplateLisp.Proofs.PreludeCode

/-!
# Searching through a sequence

`some` and `every?` go through a sequence by a loop that calls the function up to the first answer
that settles the matter; from then on the turns that are left do nothing. The answer is kept in a
variable around the loop. While the function is called, that variable is in a frame that nothing
else can get at.
-/

namespace TemplateLisp

/-- The symbol is the name of no macro and no special form, and it is neither a keyword nor a
member. -/
def Symbol.IsPlain (s : Symbol) : Prop :=
  BuiltinMacro.table.lookup s = none ∧ SpecialForm.ofName? s.name = none ∧ s.isMember = false ∧
    s.isKeyword = false

/-- Two worlds in which a sequence is as it was have the same sequence. -/
theorem World.SameSequence.between {start w w' : World} {s : Value} (h : start.SameSequence w s)
    (h' : start.SameSequence w' s) : w.SameSequence w' s := by
  cases s with
  | cell | vector | map => exact Eq.trans h' (Eq.symm h)
  | _ => trivial

/-- A sequence has its elements where what was there is kept. -/
theorem World.Aside.contents? {w w' : World} {v : Value} {els : List Element} (hw' : w.Aside w w')
    (h : w.contents? v = some els) (hw : w.Sound) (hv : w.InRange v) : w'.contents? v =
    some els := by
  refine contents?_keeps h hw hv hw'.toKeeps fun env henv => hw'.frame env (.old ?_)
  subst henv
  exact hv

/-- A sequence stays the same where what was there is kept. -/
theorem World.SameSequence.of_aside {w w' : World} {v : Value} {els : List Element}
    (h : w.contents? v = some els) (hw : w.Sound) (hv : w.InRange v) (hw' : w.Aside w w') :
    w.SameSequence w' v := by
  have hlater := hw'.contents? h hw hv
  have hk := hw'.toKeeps
  cases v with
  | cell r =>
    obtain ⟨cells, hspine, -⟩ := contents?_cell h
    obtain ⟨cells', hspine', -⟩ := contents?_cell hlater
    obtain ⟨rest, hrest, hchain, -⟩ := spine_of_spineAt hspine
    obtain ⟨rest', hrest', hchain', -⟩ := spine_of_spineAt hspine'
    obtain rfl : cells = rest := hrest
    obtain rfl : cells' = rest' := hrest'
    obtain ⟨rfl, -⟩ := (hchain.keeps hw hv hk).unique hchain'
    exact hspine'.trans hspine.symm
  | vector r => exact hk.vector r hv
  | map r =>
    cases r with
    | own index => exact hk.entries index hv
    | vars env =>
      show entries w' (.vars env) = entries w (.vars env)
      rw [entries, entries, hw'.frame env (.old hv)]
  | _ => trivial

/-- A walk through a sequence that is as it was is a walk through the sequence as it was. -/
theorem Cursor.Walks.since {start w : World} {s : Value} {els : List Element} {c : Cursor}
    (h : c.Walks w s els) (hw : start.SameSequence w s) : c.Walks start s els := by
  obtain ⟨rs, hahead⟩ := h
  exact ⟨rs, fun w' hw' => hahead w' (hw.between hw')⟩

namespace Prelude

open Run (Reaches Matches)
open World (Encodes AtWork Shows)

variable {i : Interpreter} {p : Function → ClosureRef}

/-! ## Names -/

section
variable {S : World → Prop} {w : World} {env : FrameRef}
  {frames : List (FrameRef × Bindings)} {x : Symbol} {v : Value}

theorem Stands.bound_local (h : Stands i p S) (hw : S w) (hscope : w.Scope i.env env frames)
    (hx : (frames.findSome? fun e => Bindings.get? x e.2) = some v) : w.lookup? env x = some v := by
  rw [hscope.lookup? (h.outermost w hw), hx]
  rfl

theorem Stands.bound_root (h : Stands i p S) (hw : S w) (hscope : w.Scope i.env env frames)
    (hx : (frames.findSome? fun e => Bindings.get? x e.2) = none)
    (hv : Bindings.get? x (w.frame i.env).vars = some v) : w.lookup? env x = some v := by
  rw [hscope.lookup? (h.outermost w hw), hx, hv]
  rfl

theorem Stands.names (h : Stands i p S) (hw : S w) (hbound : w.lookup? env x = some v)
    (hx : x.IsPlain) (hv : v.isCallable = true) : (site i env).Names w x v where
  noMacro := (congrArg (List.lookup x) (h.macros w hw)).trans hx.1
  noSpecialForm := hx.2.1
  noMember := hx.2.2.1
  noKeyword := hx.2.2.2
  bound := hbound
  callable := hv

theorem builtins_plain {e : Symbol × Value} (he : e ∈ builtins) : e.1.IsPlain := by
  simp only [builtins, List.mem_cons, List.not_mem_nil, or_false] at he
  rcases he with rfl | rfl | rfl | rfl | rfl | rfl <;> exact ⟨rfl, rfl, rfl, rfl⟩

/-- Where nothing hides it, the name of a built-in function stands for that function. -/
theorem Stands.names_builtin {b : Builtin} (h : Stands i p S) (hw : S w)
    (hscope : w.Scope i.env env frames)
    (hfree : (frames.findSome? fun e => Bindings.get? x e.2) = none)
    (hb : (x, .builtin b) ∈ Prelude.builtins) : (site i env).Names w x (.builtin b) :=
  h.names hw (h.bound_root hw hscope hfree (h.builtins w hw _ hb)) (builtins_plain hb) rfl

variable [Host]

/-- A variable in code has the value that it is bound to. -/
theorem Stands.value_local {e : Value} (h : Stands i p S) (hw : S w)
    (hscope : w.Scope i.env env frames) (hx : (frames.findSome? fun e => Bindings.get? x e.2) =
    some v) (hplain : x.isKeyword = false)
    (he : Encodes S e (.sym x)) : (site i env).HasValue w e v w := by
  obtain rfl := he.of_sym
  exact Site.value_of_bound hplain (h.bound_local hw hscope hx)

/-- Where nothing hides it, a built-in name in code has its built-in value. -/
theorem Stands.value_builtin {e : Value} (h : Stands i p S) (hw : S w)
    (hscope : w.Scope i.env env frames) (hfree : (frames.findSome? fun e => Bindings.get? x e.2) =
    none) (hv : (x, v) ∈ Prelude.builtins)
    (he : Encodes S e (.sym x)) : (site i env).HasValue w e v w := by
  obtain rfl := he.of_sym
  exact Site.value_of_bound (builtins_plain hv).2.2.2
    (h.bound_root hw hscope hfree (h.builtins w hw _ hv))

end

variable [Host]

/-- Functions of the prelude are called from the root. -/
theorem calls_root {w : World} {f : Value} {args : List Value}
    {r : EStateM.Result Stop World Value} :
    i.Calls w f args r ↔ Reaches (fun n => call n (site i i.env) f args) w r :=
  Interpreter.callsFrom_iff (site_of i i.env) rfl

/-! ## Forms of the code -/

section
variable {S : World → Prop} {w : World} {env : FrameRef} {g : String} {v f : Value} {d : Datum}

/-- Arguments whose values are found without doing anything. -/
theorem gives_code {parts : List Datum} {args : List Value}
    (hv : Encodes S v (form parts)) (hw : S w) (hargs :
    List.Forall₂ (fun d x => ∀ e, Encodes S e d → (site i env).HasValue w e x w) parts args) :
    (site i env).Gives w v args w := by
  induction hargs generalizing v with
  | nil =>
    obtain rfl := hv.of_nil
    exact Site.gives_nil
  | cons hx _ ih =>
    obtain ⟨q, c, rfl, hq, hfirst, hrest⟩ := Encodes.of_cons hv
    have hcell := hq w hw
    have hvalue : (site i env).HasValue w (w.cell q).car _ w := hcell ▸ hx _ hfirst
    exact .cons hvalue (hcell ▸ ih hrest)

section
variable (hv : Encodes S v (form [name g, d])) (hw : S w)
  (hlast : ∀ e, Encodes S e d → ∀ x w₁, Reaches ((site i env).valueRuns e) w (.ok x w₁) → S w₁)
include hv hw hlast

/-- A form with one argument calls the function with the value of the argument. -/
theorem matches_unary_code (hg : (site i env).Names w ⟨g⟩ f) : ∃ e, Encodes S e d ∧
    Matches ((site i env).valueRuns v) w
      (fun n => (site i env).valueRuns e n >>= fun x => call n (site i env) f [x]) w := by
  obtain ⟨q, q', e, pos, pos', rfl, hq, hq', he⟩ := hv.call_one
  have hcar : (w.cell q').car = e := by rw [hq' w hw]
  have hmatches := Site.matches_unary (site_of i env) rfl (hq w hw) hg fun x w₁ hx => by
    rw [hcar] at hx
    rw [hq' w₁ (hlast e he x w₁ hx)]
  rw [hcar] at hmatches
  exact ⟨e, he, hmatches⟩

/-- The form `(not v)` negates the value of the argument. -/
theorem matches_not_code (hg : g = "not") (hnot : (site i env).Names w ⟨"not"⟩ (.builtin .not)) :
    ∃ e, Encodes S e d ∧ Matches ((site i env).valueRuns v) w
      (fun n => (site i env).valueRuns e n >>= fun x => pure (.bool !x.isTruthy)) w := by
  subst hg
  obtain ⟨q, q', e, pos, pos', rfl, hq, hq', he⟩ := hv.call_one
  have hcar : (w.cell q').car = e := by rw [hq' w hw]
  have hmatches := Site.matches_not (site_of i env) rfl (hq w hw) hnot fun x w₁ hx => by
    rw [hcar] at hx
    rw [hq' w₁ (hlast e he x w₁ hx)]
  rw [hcar] at hmatches
  exact ⟨e, he, hmatches⟩

end

end

/-! ## Calls that disturb nothing -/

/-- The function `f` is called on elements of the sequence `s`. Its calls leave the prelude, what it
uses and the sequence as they are, and the frame that they are made from makes no difference to
them. -/
structure Undisturbed (i : Interpreter) (p : Function → ClosureRef) (f s : Value) (start : World)
    (els : List Element) : Prop where
  sound : start.Sound
  callable : f.isCallable = true
  function : start.InRange f
  sequence : start.InRange s
  contents : start.contents? s = some els
  stands : Stands i p (Reached i f start els)
  same : ∀ w, Reached i f start els w → start.SameSequence w s
  scopes : ∀ w x pending, Due i f start els pending w x →
    ∀ env r, i.CallsFrom env w f [x] r ↔ i.Calls w f [x] r

namespace Undisturbed

variable {f s x : Value} {start w w' : World} {els pending : List Element}
  (h : Undisturbed i p f s start els)
include h

theorem root : i.env.index < start.frames.size := h.stands.root_inRange ⟨els, .start⟩ h.sound

theorem proceeds (hw : Proceeds i f start els pending w) :
    w.Sound ∧ start.Grows w ∧ ∀ el ∈ pending, el.Known start w := by
  induction hw with
  | start => exact ⟨h.sound, .refl _, World.contents?_known h.contents h.sound h.sequence⟩
  | aside _ haside hsound ih =>
    obtain ⟨-, hgrows, hels⟩ := ih
    have hstep := haside.toKeeps.toGrows
    exact ⟨hsound, hgrows.trans hstep, fun el hel => (hels el hel).mono hstep⟩
  | taken _ hshows ih =>
    obtain ⟨hsound, hgrows, hels⟩ := ih
    exact ⟨hsound, hgrows, List.forall_mem_map.2 (World.ShowsAll.known hshows hels)⟩
  | @call el els' w w' x a _ hshows hcall ih =>
    obtain ⟨hsound, hgrows, hels⟩ := ih
    obtain ⟨hel, hels⟩ := List.forall_mem_cons.1 hels
    have hkept :=
      (Interpreter.Calls.kept hcall (Reserve.safe_none hsound) hgrows (.none start) (fun _ => id)
      h.root h.function (hshows.known hel)).1
    have hstep : w.Grows w' := hkept.grows
    exact ⟨hkept.safe.sound, hgrows.trans hstep, fun el hel => (hels el hel).mono hstep⟩

theorem reached (hw : Reached i f start els w) : w.Sound ∧ start.Grows w := by
  obtain ⟨pending, hproceeds⟩ := hw
  exact ⟨(h.proceeds hproceeds).1, (h.proceeds hproceeds).2.1⟩

/-- The parts of a form of code exist. -/
theorem parts_inRange {v : Value} {parts : List Value}
    (hlist : ∀ w, Reached i f start els w → w.ListOf v parts) (hv : start.InRange v) :
    ∀ part ∈ parts, start.InRange part :=
  (hlist start ⟨els, .start⟩).inRange h.sound hv

theorem due (hdue : Due i f start els pending w x) : w.Sound ∧ start.Grows w ∧ x.Known start w := by
  obtain ⟨el, hproceeds, hshows⟩ := hdue
  obtain ⟨hsound, hgrows, hels⟩ := h.proceeds hproceeds
  exact ⟨hsound, hgrows, hshows.known (hels el List.mem_cons_self)⟩

/-- A call leaves alone what the function that makes it keeps for itself. -/
theorem kept {r : Reserve} (hdue : Due i f start els pending w x) (hsafe : r.Safe w)
    (hnewer : r.Newer start) (hcells : ∀ q, ¬ r.cells q) {res : EStateM.Result Stop World Value}
    (hcall : i.Calls w f [x] res) :
    r.Kept w (Run.leaves res) ∧ ∀ a w', res = .ok a w' → r.Admits w' a := by
  obtain ⟨-, hgrows, hx⟩ := h.due hdue
  exact Interpreter.Calls.kept hcall hsafe hgrows hnewer hcells h.root h.function hx

theorem kept_none (hdue : Due i f start els pending w x) {res : EStateM.Result Stop World Value}
    (hcall : i.Calls w f [x] res) :
    Reserve.none.Kept w (Run.leaves res) ∧ ∀ a w', res = .ok a w' → w'.InRange a := by
  obtain ⟨hkept, ha⟩ :=
    h.kept hdue (Reserve.safe_none (h.due hdue).1) (.none start) (fun _ => id) hcall
  exact ⟨hkept, fun a w' hres => (ha a w' hres).inRange⟩

/-- The frames of the function outlast a call. -/
theorem answered {env : FrameRef} {frames : List (FrameRef × Bindings)}
    (hwork : start.AtWork w i.env env frames) (hdue : Due i f start els pending w x) {a : Value}
    (hcall : i.Calls w f [x] (.ok a w')) : start.AtWork w' i.env env frames ∧ w'.InRange a := by
  refine ⟨hwork.afterCall fun r hnew hsafe => ?_, (h.kept_none hdue hcall).2 a w' rfl⟩
  exact (h.kept hdue hsafe hnew.toNewer hnew.no_cells hcall).1

theorem calls_iff (hdue : Due i f start els pending w x) (env : FrameRef)
    {r : EStateM.Result Stop World Value} :
    i.Calls w f [x] r ↔ Reaches (fun n => call n (site i env) f [x]) w r :=
  (h.scopes w x pending hdue env r).symm.trans (Interpreter.callsFrom_iff (site_of i env) rfl)

/-- The function calls `f` by the form `(pred x)`. -/
theorem matches_predicate {e : Value} {env : FrameRef} {frames : List (FrameRef × Bindings)}
    (hw : Reached i f start els w) (hscope : w.Scope i.env env frames)
    (hpred : (frames.findSome? fun e => Bindings.get? ⟨"pred"⟩ e.2) = some f)
    (hx : (frames.findSome? fun e => Bindings.get? ⟨"x"⟩ e.2) = some x)
    (he : Encodes (Reached i f start els) e (form [name "pred", name "x"])) :
    Matches ((site i env).valueRuns e) w (fun n => call n (site i env) f [x]) w := by
  have hnames :=
    h.stands.names hw (h.stands.bound_local hw hscope hpred) ⟨rfl, rfl, rfl, rfl⟩ h.callable
  have hvalue (e : Value) (he : Encodes (Reached i f start els) e (name "x")) :
      (site i env).HasValue w e x w := h.stands.value_local hw hscope hx rfl he
  obtain ⟨e', he', hmatches⟩ := matches_unary_code he hw (fun e' he' v w₁ hv => by
    cases hv.unique (hvalue e' he').reaches
    exact hw) hnames
  exact hmatches.trans (.after (hvalue e' he') _)

end Undisturbed

/-! ## The loop of a search -/

/-- The frames of a search: the result in one inside of the arguments. -/
abbrev searchFrames (outer inner : FrameRef) (f s : Value) (result : String) (a : Value) :
    List (FrameRef × Bindings) :=
  [(inner, Bindings.ofNames [(⟨result⟩, a)]),
    (outer, Bindings.ofNames [(⟨"pred"⟩, f), (⟨"seq"⟩, s)])]

/-- One turn of the loop of a search. -/
def turnRuns (i : Interpreter) (inner : FrameRef) (turn x : Value) (n : Nat) : Run Unit :=
  (evaluator n).turn (site i inner) ⟨"x"⟩ [turn] x

/-- The loop of a search from a place on. -/
def loopRuns (i : Interpreter) (inner : FrameRef) (turn : Value) (c : Cursor)
    (n : Nat) : Run Unit :=
  (evaluator n).turns (site i inner) ⟨"x"⟩ [turn] n c

/-- How a search comes to its end; `state` is what then holds of what has been found. -/
def Concludes (y : Nat → Run Unit) (w : World) (state : Option Value → World → Prop) : Ending → Prop
  | .through w' => Reaches y w (.ok () w') ∧ state none w'
  | .found a w' => Reaches y w (.ok () w') ∧ state (some a) w'
  | .stopped st w' => Reaches y w (.error st w')
  | .endless => ∀ r, ¬ Reaches y w r

omit [Host] in
theorem Concludes.of_matches {y y' : Nat → Run Unit} {w w' : World}
    {state : Option Value → World → Prop} {e : Ending} (h : Concludes y' w' state e)
    (hy : Matches y w y' w') : Concludes y w state e := by
  cases e with
  | through | found => exact ⟨(hy _).2 h.1, h.2⟩
  | stopped => exact (hy _).2 h
  | endless => exact fun r hr => h r ((hy r).1 hr)

/-- The turns of a search: as long as nothing has been found the function is asked about the
element, and an answer that is wanted changes the result; then nothing is done any more. -/
structure Turns (i : Interpreter) (f s : Value) (start : World) (els : List Element)
    (outer inner : FrameRef) (wanted : Value → Bool) (result : String)
    (value : Option Value → Value) (turn : Value) : Prop where
  idle : ∀ w x a, wanted a = true → Reached i f start els w → w.InRange x →
    start.AtWork w i.env inner (searchFrames outer inner f s result (value (some a))) →
    ∃ w', Reaches (turnRuns i inner turn x) w (.ok () w') ∧ start.Aside w w' ∧
      start.AtWork w' i.env inner (searchFrames outer inner f s result (value (some a)))
  ask : ∀ w x pending, Due i f start els pending w x →
    start.AtWork w i.env inner (searchFrames outer inner f s result (value none)) →
    ∃ w₁, Inquires i f x start w w₁ (turnRuns i inner turn x) id
      fun a _ w' => start.AtWork w' i.env inner
        (searchFrames outer inner f s result (value (if wanted a then some a else none)))

section
variable {f s : Value} {start w : World} {els pending : List Element} {outer inner : FrameRef}
  {wanted : Value → Bool} {result : String} {value : Option Value → Value}
    {turn a : Value} {c : Cursor}
  (h : Undisturbed i p f s start els)
  (hturns : Turns i f s start els outer inner wanted result value turn)

theorem rising_turnRuns (i : Interpreter) (inner : FrameRef) (turn x : Value) :
    Run.Rising (turnRuns i inner turn x) := fun _ _ h => (evaluator_below h).turn _ _ _ x

theorem rising_loopRuns (i : Interpreter) (inner : FrameRef) (turn : Value) (c : Cursor) :
    Run.Rising (loopRuns i inner turn c) := fun _ _ h => (evaluator_below h).turns h _ _ _ c

theorem loop_end (hend : (c.next .unbounded).run w = .ok none w) :
    Reaches (loopRuns i inner turn c) w (.ok () w) := by
  have hcomes : Run.ComesTo (loopRuns i inner turn c) w (.ok () w) := Site.comesTo_turns_nil hend
  exact hcomes.reaches

theorem loop_next {x : Value} {c' : Cursor} {w₁ : World}
    (hnext : (c.next .unbounded).run w = .ok (some (x, c')) w₁) :
    Matches (loopRuns i inner turn c) w
      (fun n => turnRuns i inner turn x n >>= fun _ => loopRuns i inner turn c' n) w₁ :=
  Site.matches_turns hnext

/-- A turn that ends is followed by the turns for the elements behind. -/
theorem loop_behind {x : Value} {c' : Cursor} {w₁ w₂ : World}
    (hnext : (c.next .unbounded).run w = .ok (some (x, c')) w₁)
    (hturn : Reaches (turnRuns i inner turn x) w₁ (.ok () w₂)) :
    Matches (loopRuns i inner turn c) w (loopRuns i inner turn c') w₂ :=
  (loop_next hnext).trans (.after (hturn.comesTo (rising_turnRuns i inner turn x)) _)

/-- A turn evaluates its form in a frame that binds the element. -/
theorem turn_opens {x : Value} {frames : List (FrameRef × Bindings)} (hw : Reached i f start els w)
    (hx : w.InRange x) (hwork : start.AtWork w i.env inner frames) :
    ∃ w₀ env, start.Aside w w₀ ∧ Reached i f start els w₀ ∧
      start.AtWork w₀ i.env env ((env, Bindings.ofNames [(⟨"x"⟩, x)]) :: frames) ∧
      Matches (turnRuns i inner turn x) w
        (fun n => (site i env).valueRuns turn n >>= fun _ => pure ()) w₀ := by
  obtain ⟨haside, hopened⟩ := hwork.opened [(⟨"x"⟩, x)] (List.forall_mem_singleton.2 hx)
  exact ⟨_, _, haside, hw.aside haside hopened.sound, hopened, Site.matches_turn⟩

include h in
/-- The loop takes the next of the elements that are still to come. -/
theorem loop_takes {el : Element} {frames : List (FrameRef × Bindings)}
    (hwalks : c.Walks start s (el :: pending)) (hc : c.Known start w)
    (hw : Reached i f start els w) (hwork : start.AtWork w i.env inner frames) :
    ∃ x c' w₁, (c.next .unbounded).run w = .ok (some (x, c')) w₁ ∧ Shows start w₁ el x ∧
      w₁.InRange x ∧ c'.Walks start s pending ∧ c'.Known start w₁ ∧ start.Aside w w₁ ∧
      start.AtWork w₁ i.env inner frames := by
  obtain ⟨x, c', w₁, hnext, hshows, hextends, -, hwalks⟩ :=
    hwalks.next_cons (h.same w hw) .unbounded
  obtain ⟨hsound, hgrows⟩ := h.reached hw
  have hc' := hc.next hsound hgrows hnext hextends
  have hx :=
    (hc.next_safe hgrows (.none start) (fun _ => id) (Reserve.safe_none hsound) hnext).2 _ rfl
  refine ⟨x, c', w₁, hnext, hshows.since hgrows.cells, hx.inRange, hwalks, hc',
    .of_extends hextends,
    hwork.extended hextends fun s hnew hs => ?_⟩
  exact (hc.next_safe hgrows hnew.toNewer hnew.no_cells hs hnext).1

include h hturns in
theorem turns_idle (ha : wanted a = true) (hwalks : c.Walks start s pending)
    (hc : c.Known start w) (hw : Reached i f start els w)
    (hwork : start.AtWork w i.env inner (searchFrames outer inner f s result (value (some a)))) :
    ∃ w', Reaches (loopRuns i inner turn c) w (.ok () w') ∧ start.Aside w w' ∧
      start.AtWork w' i.env inner (searchFrames outer inner f s result (value (some a))) := by
  induction pending generalizing c w with
  | nil =>
    exact ⟨w, loop_end (hwalks.next_nil (h.same w hw) .unbounded), .refl start w, hwork⟩
  | cons el pending ih =>
    obtain ⟨x, c', w₁, hnext, -, hx, hwalks, hc', hstep, hwork⟩ := loop_takes h hwalks hc hw hwork
    have hw₁ := hw.aside hstep hwork.sound
    obtain ⟨w₂, hturn, haside, hwork⟩ := hturns.idle w₁ x a ha hw₁ hx hwork
    have hw₂ := hw₁.aside haside hwork.sound
    obtain ⟨w', hrest, hbehind, hwork⟩ := ih hwalks (hc'.mono haside.toKeeps.toGrows) hw₂ hwork
    exact ⟨w', (loop_behind hnext hturn _).2 hrest, hstep.trans (haside.trans hbehind), hwork⟩

include h hturns in
/-- A search asks the function about the elements, up to the first answer that is wanted. -/
theorem turns_ask (hwalks : c.Walks start s pending) (hc : c.Known start w)
    (hw : Proceeds i f start els pending w)
    (hwork : start.AtWork w i.env inner (searchFrames outer inner f s result (value none))) :
    ∃ answers e, Asks i f start wanted w pending answers e ∧
      Concludes (loopRuns i inner turn c) w
        (fun found w' => Reached i f start els w' ∧
          start.AtWork w' i.env inner (searchFrames outer inner f s result (value found))) e := by
  induction pending generalizing c w with
  | nil =>
    have hend := hwalks.next_nil (h.same w ⟨_, hw⟩) .unbounded
    exact ⟨[], .through w, .through (.refl start w), loop_end hend, ⟨_, hw⟩, hwork⟩
  | cons el pending ih =>
    obtain ⟨x, c', w₁, hnext, hshows, -, hwalks, hc', hstep, hwork⟩ :=
      loop_takes h hwalks hc ⟨_, hw⟩ hwork
    have hdue : Due i f start els pending w₁ x := ⟨el, hw.aside hstep hwork.sound, hshows⟩
    obtain ⟨w₂, hasks⟩ := hturns.ask w₁ x pending hdue hwork
    have hbefore := hstep.trans hasks.aside
    have hdue := hdue.aside hasks.aside hasks.sound
    have hshows := hshows.keeps hasks.aside.toKeeps
    have hrising := rising_turnRuns i inner turn x
    rcases i.calls_cases w₂ f [x] with ⟨a, w₃, hcall⟩ | ⟨st, w₃, hcall⟩ | hendless
    · obtain ⟨⟨⟩, w₄, hturn, hbehind, hwork⟩ := hasks.answered a w₃ hcall
      have hw₄ := (hdue.answered hcall).aside hbehind hwork.sound
      have hrest := loop_behind hnext hturn
      have hgrows : w₂.Grows w₃ := (h.kept_none hdue hcall).1.grows
      have hc' := ((hc'.mono hasks.aside.toKeeps.toGrows).mono hgrows).mono hbehind.toKeeps.toGrows
      cases ha : wanted a with
      | true =>
        rw [ha, if_pos rfl] at hwork
        obtain ⟨w', hidle, hlast, hwork⟩ := turns_idle h hturns ha hwalks hc' ⟨_, hw₄⟩ hwork
        refine ⟨[a], .found a w', .found hbefore hasks.sound hshows hcall ha
          (hbehind.trans hlast), ?_⟩
        exact ⟨(hrest _).2 hidle, ⟨_, hw₄.aside hlast hwork.sound⟩, hwork⟩
      | false =>
        rw [ha, if_neg Bool.false_ne_true] at hwork
        obtain ⟨answers, e, hasked, hconcludes⟩ := ih hwalks hc' hw₄ hwork
        exact ⟨a :: answers, e, .next hbefore hasks.sound hshows hcall ha (hasked.before hbehind),
          hconcludes.of_matches hrest⟩
    · refine ⟨[], .stopped st w₃, .stopped hbefore hasks.sound hshows hcall, ?_⟩
      exact (loop_next hnext _).2 ((hasks.stopped st w₃ hcall).bind_error hrising _)
    · refine ⟨[], .endless, .endless hbefore hasks.sound hshows hendless, fun r hr => ?_⟩
      exact Run.not_reaches_bind (hasks.endless hendless) hrising _ r ((loop_next hnext r).1 hr)

end

/-! ## The turns of `some` -/

section
variable {f s x : Value} {start w : World} {els pending : List Element} {outer inner : FrameRef}
  {result : String} {a : Value} (h : Undisturbed i p f s start els)
include h

/-- The form `(let ((v (pred x))) (when v (setq found v)))`. -/
def finding : Datum :=
  form [name "let", form [form [name "v", form [name "pred", name "x"]]],
    form [name "when", name "v", form [name "setq", name "found", name "v"]]]

/-- A turn looks whether something has been found already. -/
theorem some_turn {turn : Value}
    (hturn : Encodes (Reached i f start els) turn (form [name "unless", name "found", finding]))
    (hrange : start.InRange turn) (hw : Reached i f start els w) (hx : w.InRange x)
    (hwork : start.AtWork w i.env inner (searchFrames outer inner f s "found" a)) :
    ∃ w₁ env search, start.Aside w w₁ ∧ Encodes (Reached i f start els) search finding ∧
      start.InRange search ∧
      start.AtWork w₁ i.env env
        ((env, Bindings.ofNames [(⟨"x"⟩, x)]) :: searchFrames outer inner f s "found" a) ∧
      Matches (turnRuns i inner turn x) w
        (fun n => (if a.isTruthy then pure .nil else (site i env).valueRuns search n) >>=
          fun _ => pure ()) w₁ := by
  obtain ⟨w₀, env, haside, hw₀, hopened, hstart⟩ := turn_opens hw hx hwork
  obtain ⟨_, search, htest, hsearch, hlist⟩ := hturn.parts_two
  obtain rfl := htest.of_sym
  have hscope := hopened.scope
  have hfound : w₀.lookup? env ⟨"found"⟩ = some a := h.stands.bound_local hw₀ hscope rfl
  have hnot : (site i env).Names w₀ ⟨"not"⟩ (.builtin .not) :=
    h.stands.names_builtin hw₀ hscope rfl (by simp [builtins])
  have hvalue (w' : World) (hw' : w₀.Extends w') :
      (site i env).HasValue w' (.sym ⟨"found"⟩) a w' :=
    Site.value_of_bound rfl ((Site.lookup?_eq hw'.frames_eq env _).trans hfound)
  have hparts := h.parts_inRange hlist hrange
  obtain ⟨block, w₁, expansion, hexpand, hextends, hblock, hunless⟩ :=
    Site.matches_unless rfl (h.stands.standard hw₀ env) hnot (hlist w₀ hw₀) hvalue
  have hwork := hopened.expanded (fun v hv => hparts v (.tail _ hv)) hexpand hextends
  have hw₁ := hw₀.aside (.of_extends hextends) hwork.sound
  refine ⟨w₁, env, search, haside.trans (.of_extends hextends), hsearch,
    hparts _ (.tail _ (.tail _ (.head _))), hwork, ?_⟩
  refine hstart.trans ?_
  cases ha : a.isTruthy with
  | true =>
    simp only [ha, if_pos] at hunless
    exact hunless.bind_left (Run.rising_value _ _) (.const _) _
  | false =>
    simp only [ha, Bool.false_eq_true, if_false] at hunless
    have hblock := hunless.trans (Site.matches_block rfl (h.stands.standard hw₁ env) hblock)
    exact hblock.bind_left (Run.rising_value _ _) (Run.rising_value _ _) _

/-- An answer that is true is kept as the result. -/
theorem finding_kept {keep : Value} {env env' : FrameRef}
    (hkeep : Encodes (Reached i f start els) keep
      (form [name "when", name "v", form [name "setq", name "found", name "v"]]))
    (hrange : start.InRange keep) (ha : w.InRange a) (hw : Reached i f start els w)
    (hwork : start.AtWork w i.env env'
      ((env', Bindings.ofNames [(⟨"v"⟩, a)]) :: (env, Bindings.ofNames [(⟨"x"⟩, x)]) :: searchFrames
        outer inner f s "found" .nil)) :
    ∃ v w', Reaches ((site i env').valueRuns keep) w (.ok v w') ∧ start.Aside w w' ∧
      start.AtWork w' i.env inner (searchFrames outer inner f s "found"
        ((if a.isTruthy then some a else none).getD .nil)) := by
  obtain ⟨_, set, htest, hset, hlist⟩ := hkeep.parts_two
  obtain rfl := htest.of_sym
  obtain ⟨block, w₁, expansion, hexpand, hextends, hblock, hwhen⟩ :=
    Site.matches_when rfl (h.stands.standard hw env') (hlist w hw)
  have hparts := h.parts_inRange hlist hrange
  have hwork := hwork.expanded (fun v hv => hparts v (.tail _ hv)) hexpand hextends
  have hstep : start.Aside w w₁ := .of_extends hextends
  have hw₁ := hw.aside hstep hwork.sound
  have hanswer : (site i env').HasValue w₁ (.sym ⟨"v"⟩) a w₁ :=
    Site.value_of_bound rfl (h.stands.bound_local hw₁ hwork.scope rfl)
  have hwhen := hwhen.trans (.after hanswer _)
  cases htrue : a.isTruthy with
  | false =>
    simp only [htrue, Bool.false_eq_true, if_false] at hwhen ⊢
    exact ⟨.nil, w₁, (hwhen _).2 (Run.reaches_pure Value.nil w₁), hstep, hwork.left.left⟩
  | true =>
    simp only [htrue, if_pos] at hwhen ⊢
    obtain ⟨_, _, hfound, hv, hlist⟩ := hset.parts_two
    obtain rfl := hfound.of_sym
    obtain rfl := hv.of_sym
    have hsetq := Site.hasValue_setq rfl (h.stands.standard hw₁ env') (hlist w₁ hw₁) rfl hanswer
    have hassign : w₁.assign env' ⟨"found"⟩ a = w₁.define inner ⟨"found"⟩ a :=
      hwork.scope.assign (h.stands.outermost w₁ hw₁) [(env', Bindings.ofNames [(⟨"v"⟩, a)]),
        (env, Bindings.ofNames [(⟨"x"⟩, x)])]
        rfl rfl rfl a
    have hblock := hwhen.trans (Site.matches_block rfl (h.stands.standard hw₁ env')
      (hblock w₁ .refl (.refl _)))
    obtain ⟨hdefine, hdefined⟩ :=
      hwork.left.left.defined ⟨"found"⟩ (ha.mono hextends.toKeeps.toGrows)
    refine ⟨a, w₁.define inner ⟨"found"⟩ a, (hblock _).2 ?_, hstep.trans hdefine, hdefined⟩
    have hsetq : (site i env').HasValue w₁ set a (w₁.assign env' ⟨"found"⟩ a) := hsetq
    rw [hassign] at hsetq
    exact hsetq.reaches

/-- Where nothing has been found, the function is asked. -/
theorem finding_inquires {search : Value} {env : FrameRef}
    (hsearch : Encodes (Reached i f start els) search finding) (hrange : start.InRange search)
    (hdue : Due i f start els pending w x) (hwork : start.AtWork w i.env env
      ((env, Bindings.ofNames [(⟨"x"⟩, x)]) :: searchFrames outer inner f s "found" .nil)) :
    ∃ w₁, Inquires i f x start w w₁ (fun n =>
      (site i env).valueRuns search n >>= fun _ => pure ()) id
      fun a _ w' => start.AtWork w' i.env inner (searchFrames outer inner f s "found"
        ((if a.isTruthy then some a else none).getD .nil)) := by
  have hw := hdue.reached
  obtain ⟨_, keep, hbindings, hkeep, hlist⟩ := hsearch.parts_two
  obtain ⟨q, bindings, rfl, hq, hbinding, hend⟩ := hbindings.of_cons
  obtain ⟨e, he, hpair⟩ := hbinding.parts_one
  obtain ⟨hopen, hopened⟩ := hwork.opened [] nofun
  have hdue := hdue.aside hopen hopened.sound
  have hcar : (w.cell q).car = bindings.car := by rw [hq w hw]
  have hcall := h.matches_predicate hdue.reached hopened.scope rfl rfl he
  have hlet := Site.matches_let rfl (h.stands.standard hw env) (hlist w hw)
    (hcar ▸ hpair _ hdue.reached) fun v w₂ hv => by
      have hv := (h.calls_iff hdue _).2 ((hcall _).1 hv)
      rw [hq w₂ ⟨_, hdue.answered hv⟩]
      exact hend.of_nil
  have hlet := hlet.trans (hcall.bind_left (Run.rising_value _ _) (Run.rising_call _ _ _) _)
  refine ⟨_, (Inquires.of_matches (fun _ => h.calls_iff hdue _) hopen hopened.sound hlet
    fun a w₂ hanswer => ?_).discard (Run.rising_value _ _)⟩
  obtain ⟨hcalled, ha⟩ := h.answered hopened hdue hanswer
  have hw₂ : Reached i f start els w₂ := ⟨_, hdue.answered hanswer⟩
  obtain ⟨hdefine, hdefined⟩ := hcalled.defined ⟨"v"⟩ ha
  obtain ⟨v, w', hend, hstep, hwork⟩ := finding_kept h hkeep
    (h.parts_inRange hlist hrange _ (.tail _ (.tail _ (.head _))))
    (ha.mono hdefine.toKeeps.toGrows) (hw₂.aside hdefine hdefined.sound) hdefined
  have hbehind : Matches (fun n => Run.define (⟨w.frames.size⟩ : FrameRef) ⟨"v"⟩ a >>= fun _ =>
      (evaluator n).sequence false (site i ⟨w.frames.size⟩) [keep] >>= fun a => pure a.get) w₂
      ((site i ⟨w.frames.size⟩).valueRuns keep) (w₂.define ⟨w.frames.size⟩ ⟨"v"⟩ a) :=
    .of_run 0 0 0 fun _ _ => rfl
  exact ⟨v, w', (hbehind _).2 hend, hdefine.trans hstep, hwork⟩

/-- Nothing is done once something has been found, and before that the function is asked. -/
theorem some_turns {turn : Value}
    (hturn : Encodes (Reached i f start els) turn (form [name "unless", name "found", finding]))
    (hrange : start.InRange turn) : Turns i f s start els outer inner Value.isTruthy "found"
      (fun found => found.getD .nil) turn where
  idle w x a ha hw hx hwork := by
    obtain ⟨w₁, _, _, haside, -, -, hwork, hmatches⟩ := some_turn h hturn hrange hw hx hwork
    have ha : (Option.getD (some a) Value.nil).isTruthy = true := ha
    simp only [ha, if_pos, pure_bind] at hmatches
    exact ⟨w₁, (hmatches _).2 (Run.reaches_pure () w₁), haside, hwork.left⟩
  ask w x pending hdue hwork := by
    obtain ⟨-, hgrows, hx⟩ := h.due hdue
    obtain ⟨w₁, env, search, haside, hsearch, hrange, hwork, hmatches⟩ :=
      some_turn h hturn hrange hdue.reached (hx.inRange hgrows) hwork
    have hdue := hdue.aside haside hwork.sound
    obtain ⟨w₂, hasks⟩ := finding_inquires h hsearch hrange hdue hwork
    exact ⟨w₂, hasks.before haside hmatches⟩

end

/-! ## The turns of `every?` -/

section
variable {f s x : Value} {start w : World} {els pending : List Element} {outer inner : FrameRef}
  {a : Value} (h : Undisturbed i p f s start els)
include h

/-- The form `(and ok (not (pred x)))`. -/
def refuting : Datum :=
  form [name "and", name "ok", form [name "not", form [name "pred", name "x"]]]

/-- The form `(setq ok false)`. -/
def refuted : Datum := form [name "setq", name "ok", .bool false]

/-- A turn looks whether all elements have passed so far. -/
theorem every_turn {turn : Value}
    (hturn : Encodes (Reached i f start els) turn (form [name "when", refuting, refuted]))
    (hrange : start.InRange turn) (hw : Reached i f start els w) (hx : w.InRange x)
    (hwork : start.AtWork w i.env inner (searchFrames outer inner f s "ok" a)) :
    ∃ w₀ w₁ env negation block set, start.Aside w w₁ ∧ w₀.Sound ∧ start.Grows w₀ ∧ w₀.InRange x ∧
      w₀.Extends w₁ ∧ start.AtWork w₁ i.env env
        ((env, Bindings.ofNames [(⟨"x"⟩, x)]) :: searchFrames outer inner f s "ok" a) ∧
      Encodes (Reached i f start els) negation (form [name "not", form [name "pred", name "x"]]) ∧
      Encodes (Reached i f start els) set refuted ∧
      (∀ w₂, (Reserve.none.since w₀ w₁).Same w₁ w₂ → w₁.Grows w₂ →
        w₂.ListOf block [.sym ⟨"progn"⟩, set]) ∧
      Matches (turnRuns i inner turn x) w (fun n => ((if a.isTruthy then
          (site i env).valueRuns negation n else pure a) >>= fun v =>
        if v.isTruthy then (site i env).valueRuns block n else pure .nil) >>= fun _ =>
          pure ()) w₁ := by
  obtain ⟨w₀, env, haside, hw₀, hopened, hstart⟩ := turn_opens hw hx hwork
  obtain ⟨test, set, htest, hset, hlist⟩ := hturn.parts_two
  obtain ⟨_, negation, hok, hnegation, htests⟩ := htest.parts_two
  obtain rfl := hok.of_sym
  obtain ⟨block, w₁, expansion, hexpand, hextends, hblock, hwhen⟩ :=
    Site.matches_when rfl (h.stands.standard hw₀ env) (hlist w₀ hw₀)
  have hparts := h.parts_inRange hlist hrange
  have hwork := hopened.expanded (fun v hv => hparts v (.tail _ hv)) hexpand hextends
  have hw₁ := hw₀.aside (.of_extends hextends) hwork.sound
  have hall : (site i env).HasValue w₁ (.sym ⟨"ok"⟩) a w₁ :=
    Site.value_of_bound rfl (h.stands.bound_local hw₁ hwork.scope rfl)
  have hconjunction :=
    (Site.matches_conjunction rfl (h.stands.standard hw₁ env) (htests w₁ hw₁)).trans
    (.after hall _)
  refine ⟨w₀, w₁, env, negation, block, set, haside.trans (.of_extends hextends), hopened.sound,
    (h.reached hw₀).2, hx.mono haside.toKeeps.toGrows, hextends, hwork, hnegation, hset, hblock, ?_⟩
  have htest :=
    (Run.rising_value (site i env) negation).ite (c := a.isTruthy = true) (.const (pure a))
  have hchoice (v : Value) : Run.Rising fun n =>
      if v.isTruthy then (site i env).valueRuns block n else pure .nil :=
    (Run.rising_value (site i env) block).ite (.const _)
  have hchosen := hwhen.trans (hconjunction.bind_left (Run.rising_value _ _) htest _)
  exact hstart.trans (hchosen.bind_left (Run.rising_value _ _) (htest.bind hchoice) _)

/-- The form `(not (pred x))` negates the answer. -/
theorem matches_negation {negation : Value} {env : FrameRef}
    (hnegation : Encodes (Reached i f start els) negation
    (form [name "not", form [name "pred", name "x"]])) (hdue : Due i f start els pending w x)
    (hwork : start.AtWork w i.env env
      ((env, Bindings.ofNames [(⟨"x"⟩, x)]) :: searchFrames outer inner f s "ok" a)) :
    Matches ((site i env).valueRuns negation) w
      (fun n => call n (site i env) f [x] >>= fun v => pure (.bool !v.isTruthy)) w := by
  have hw := hdue.reached
  have hnot : (site i env).Names w ⟨"not"⟩ (.builtin .not) :=
    h.stands.names_builtin hw hwork.scope rfl (by simp [builtins])
  have hcall (e : Value) (he : Encodes (Reached i f start els) e (form [name "pred", name "x"])) :
      Matches ((site i env).valueRuns e) w (fun n => call n (site i env) f [x]) w :=
    h.matches_predicate hw hwork.scope rfl rfl he
  obtain ⟨e, he, hnegated⟩ := matches_not_code hnegation hw (fun e he v w₂ hv =>
    ⟨_, hdue.answered ((h.calls_iff hdue env).2 ((hcall e he _).1 hv))⟩) rfl hnot
  exact hnegated.trans ((hcall e he).bind_left (Run.rising_value _ _) (Run.rising_call _ _ _) _)

/-- It is recorded that an element has not passed. -/
theorem refuted_kept {block set : Value} {env : FrameRef}
    (hset : Encodes (Reached i f start els) set refuted) (hw : Reached i f start els w)
    (hblock : w.ListOf block [.sym ⟨"progn"⟩, set]) (hwork : start.AtWork w i.env env
      ((env, Bindings.ofNames [(⟨"x"⟩, x)]) :: searchFrames outer inner f s "ok" a)) :
    ∃ v w', Reaches ((site i env).valueRuns block) w (.ok v w') ∧ start.Aside w w' ∧
      start.AtWork w' i.env inner (searchFrames outer inner f s "ok" (.bool false)) := by
  obtain ⟨_, _, hok, hfalse, hlist⟩ := hset.parts_two
  obtain rfl := hok.of_sym
  obtain rfl := hfalse.of_bool
  have hvalue : (site i env).HasValue w (.bool false) (.bool false) w := .atom (fun _ => rfl) w
  have hsetq := Site.hasValue_setq rfl (h.stands.standard hw env) (hlist w hw) rfl hvalue
  have hassign : w.assign env ⟨"ok"⟩ (.bool false) = w.define inner ⟨"ok"⟩ (.bool false) :=
    hwork.scope.assign (h.stands.outermost w hw)
      [(env, Bindings.ofNames [(⟨"x"⟩, x)])] rfl rfl rfl _
  obtain ⟨hdefine, hdefined⟩ := hwork.left.defined ⟨"ok"⟩ (v := .bool false) trivial
  have hsetq : (site i env).HasValue w set (.bool false)
    (w.assign env ⟨"ok"⟩ (.bool false)) := hsetq
  rw [hassign] at hsetq
  refine ⟨.bool false, w.define inner ⟨"ok"⟩ (.bool false), ?_, hdefine, hdefined⟩
  exact (Site.matches_block rfl (h.stands.standard hw env) hblock _).2 hsetq.reaches

/-- Nothing is done once an element has not passed, and before that the function is asked. -/
theorem every_turns {turn : Value}
    (hturn : Encodes (Reached i f start els) turn (form [name "when", refuting, refuted]))
    (hrange : start.InRange turn) : Turns i f s start els outer inner (fun a => !a.isTruthy) "ok"
      (fun found => .bool found.isNone) turn where
  idle w x a _ hw hx hwork := by
    obtain ⟨_, w₁, _, _, _, _, haside, -, -, -, -, hwork, -, -, -, hmatches⟩ :=
      every_turn h hturn hrange hw hx hwork
    exact ⟨w₁, (hmatches _).2 (Run.reaches_pure () w₁), haside, hwork.left⟩
  ask w x pending hdue hwork := by
    obtain ⟨-, hgrows, hx⟩ := h.due hdue
    obtain ⟨w₀, w₁, env, negation, block, set, haside, hsound, hgrows, hx, hextends, hwork,
      hnegation, hset,
      hblock, hmatches⟩ := every_turn h hturn hrange hdue.reached (hx.inRange hgrows) hwork
    have hdue := hdue.aside haside hwork.sound
    have hanswer := (Run.rising_call (site i env) f [x]).bind
      fun v => Run.Rising.const (pure (.bool !v.isTruthy) : Run Value)
    have hchosen :=
      (matches_negation h hnegation hdue hwork).bind_left (Run.rising_value _ _) hanswer
      fun n v => if v.isTruthy then (site i env).valueRuns block n else pure .nil
    simp only [bind_assoc, pure_bind] at hchosen
    have hdone (a : Value) (w₂ : World) (hcall : i.Calls w₁ f [x] (.ok a w₂)) : ∃ b w₃,
        Reaches (fun n => if (Value.bool !a.isTruthy).isTruthy = true then
          (site i env).valueRuns block n else pure .nil) w₂ (.ok b w₃) ∧ start.Aside w₂ w₃ ∧
        start.AtWork w₃ i.env inner (searchFrames outer inner f s "ok"
          (.bool (if !a.isTruthy then some a else none).isNone)) := by
      have hwork := (h.answered hwork hdue hcall).1
      cases ha : a.isTruthy with
      | true => exact ⟨.nil, w₂, Run.reaches_pure Value.nil w₂, .refl start w₂, hwork.left⟩
      | false =>
        -- the block has been made for this turn, so the call has left it as it is
        have hold {v : Value} (hv : w₀.InRange v) : (Reserve.none.since w₀ w₁).Admits w₁ v :=
          (Reserve.admits_none_iff.2 hv).since hextends.toGrows
        have hroot : start.InRange (.env i.env) := h.root
        have hmade := (Reserve.safe_none hsound).since hextends (h.due hdue).1
        have hkept := (hmade.afterCall (c := ⟨f, [x], .unbounded, w₁⟩) (hold (hroot.mono hgrows))
          (hold (h.function.mono hgrows)) (List.forall_mem_singleton.2 (hold hx)) hcall).1
        exact refuted_kept h hset ⟨_, hdue.answered hcall⟩
          (hblock w₂ hkept.toSame hkept.grows) hwork
    have hasks :=
      Inquires.of_matches (fun _ => h.calls_iff hdue env) (.refl start w₁) hwork.sound hchosen
      hdone
    have hrising := (Run.rising_value (site i env) negation).bind fun v =>
      (Run.rising_value (site i env) block).ite (c := v.isTruthy = true) (.const (pure .nil))
    exact ⟨w₁, (hasks.discard hrising).before haside hmatches⟩

end

/-! ## Whole searches -/

section
variable {f s : Value} {start w : World} {els : List Element} {wanted : Value → Bool}
  {result : String}
  {value : Option Value → Value} {first turn : Datum} {fn : Function}
  (h : Undisturbed i p f s start els) (hparameters : fn.parameters = [⟨"pred"⟩, ⟨"seq"⟩])
  (hcode : fn.code = search result first turn) (hresult : ∀ w : World, w.InRange (value none))
  (hother : (⟨result⟩ : Symbol) ≠ ⟨"seq"⟩)
  (hfirst : ∀ w env outer v, Reached i f start els w →
    w.Scope i.env env [(env, []), (outer, Bindings.ofNames [(⟨"pred"⟩, f), (⟨"seq"⟩, s)])] →
    Encodes (Reached i f start els) v first → (site i env).HasValue w v (value none) w)
include h hparameters hcode hresult hother hfirst

omit hparameters hcode hresult hfirst in
/-- The loop of a search walks through the sequence. -/
theorem loop_starts {loop : Value} {w : World} {outer inner : FrameRef}
    (hloop : Encodes (Reached i f start els) loop
      (form [name "doseq", form [name "x", name "seq"], turn]))
    (hrange : start.InRange loop) (hw : Reached i f start els w) (haside : start.Aside start w)
    (hwork : start.AtWork w i.env inner (searchFrames outer inner f s result (value none))) :
    ∃ turnForm c, Encodes (Reached i f start els) turnForm turn ∧ start.InRange turnForm ∧
      c.Walks start s els ∧ c.Known start w ∧
      Matches (fun n => (site i inner).valueRuns loop n >>= fun _ =>
          (site i inner).valueRuns (.sym ⟨result⟩) n) w
        (fun n => loopRuns i inner turnForm c n >>= fun _ =>
          (site i inner).valueRuns (.sym ⟨result⟩) n) w := by
  obtain ⟨spec, turnForm, hspec, hturn, hlist⟩ := hloop.parts_two
  obtain ⟨_, hseq, hspeclist⟩ := hspec.parts_one
  obtain rfl := hseq.of_sym
  have hturnrange := h.parts_inRange hlist hrange turnForm (.tail _ (.tail _ (.head _)))
  obtain ⟨c, hcursor, hwalks, -⟩ := Cursor.walks_of_contents?
    (haside.contents? h.contents h.sound h.sequence)
  have hbound : (searchFrames outer inner f s result (value none)).findSome?
      (fun e => Bindings.get? ⟨"seq"⟩ e.2) = some s := by
    have hskip : Bindings.get? ⟨"seq"⟩ (Bindings.ofNames [(⟨result⟩, value none)]) = none := by
      simp [Bindings.get?, Bindings.ofNames, hother]
    rw [List.findSome?_cons, hskip]
    rfl
  have hsource : (site i inner).HasValue w (.sym ⟨"seq"⟩) s w :=
    Site.value_of_bound rfl (h.stands.bound_local hw hwork.scope hbound)
  have hdoseq : Matches ((site i inner).valueRuns loop) w
      (fun n => loopRuns i inner turnForm c n >>= fun _ => pure .nil) w :=
    Site.matches_doseq rfl (h.stands.standard hw inner) (hlist w hw) (hspeclist w hw)
      hsource hcursor
  have hloops := hdoseq.bind_left (Run.rising_value _ _)
    ((rising_loopRuns i inner turnForm c).bind fun _ => .const (pure .nil : Run Value))
    fun n _ => (site i inner).valueRuns (.sym ⟨result⟩) n
  simp only [bind_assoc, pure_bind] at hloops
  exact ⟨turnForm, c, hturn, hturnrange, hwalks.since (h.same w hw),
    World.cursor?_known h.sound h.sequence haside.toKeeps h.contents hcursor, hloops⟩

/-- A search starts with its result in a scope inside of that of its arguments, and then it loops
through the sequence. -/
theorem search_starts :
    ∃ w₁ outer inner turnForm c, start.Aside start w₁ ∧
      start.AtWork w₁ i.env inner (searchFrames outer inner f s result (value none)) ∧
      Encodes (Reached i f start els) turnForm turn ∧ start.InRange turnForm ∧
      c.Walks start s els ∧ c.Known start w₁ ∧
      Matches (fun n => call n (site i i.env) (.closure (p fn)) [f, s]) start
        (fun n => loopRuns i inner turnForm c n >>= fun _ =>
          (site i inner).valueRuns (.sym ⟨result⟩) n) w₁ := by
  have hstart : Reached i f start els start := ⟨els, .start⟩
  obtain ⟨body, w₁, hcalled, hwork, -, hbody, hrange, hcall⟩ := h.stands.called hstart h.sound
    (.refl start) fn [f, s] [(⟨"pred"⟩, f), (⟨"seq"⟩, s)]
    (List.forall_mem_cons.2 ⟨h.function, List.forall_mem_singleton.2 h.sequence⟩)
    (fun name => by rw [hparameters]; rfl)
  generalize (⟨start.frames.size⟩ : FrameRef) = outer at hwork hcall
  rw [hcode] at hbody
  obtain ⟨_, loop, _, hbindings, hloop, hlast, hlist⟩ := hbody.parts_three
  obtain rfl := hlast.of_sym
  obtain ⟨q, bindings, rfl, hq, hbinding, hend⟩ := hbindings.of_cons
  obtain ⟨e, he, hpair⟩ := hbinding.parts_one
  have hlooprange := h.parts_inRange hlist hrange loop (.tail _ (.tail _ (.head _)))
  -- the scope of the result
  have hw₁ := hstart.aside hcalled hwork.sound
  obtain ⟨hopen, hopened⟩ : start.Aside w₁ ((site i outer).openScope w₁) ∧
      start.AtWork ((site i outer).openScope w₁) i.env ⟨w₁.frames.size⟩
        [(⟨w₁.frames.size⟩, []), (outer, Bindings.ofNames [(⟨"pred"⟩, f), (⟨"seq"⟩, s)])] :=
    hwork.opened [] nofun
  have hw₂ := hw₁.aside hopen hopened.sound
  have hcar : (w₁.cell q).car = bindings.car := by rw [hq w₁ hw₁]
  have hvalue := hfirst _ _ outer e hw₂ hopened.scope he
  have hlet := Site.matches_let rfl (h.stands.standard hw₁ outer) (hlist w₁ hw₁)
    (hcar ▸ hpair _ hw₂) fun v w₃ hv => by
      cases hvalue.reaches.unique hv
      rw [hq _ hw₂]
      exact hend.of_nil
  have hscope : (site i outer).scope w₁ = site i ⟨w₁.frames.size⟩ := rfl
  rw [hscope] at hlet
  generalize (site i outer).openScope w₁ = w₂ at hopen hopened hw₂ hvalue hlet
  generalize (⟨w₁.frames.size⟩ : FrameRef) = inner at hopened hvalue hlet
  obtain ⟨hdefine, hdefined⟩ := hopened.defined ⟨result⟩ (hresult _)
  have hdefineRuns : Run.ComesTo (fun _ => Run.define inner ⟨result⟩ (value none)) w₂
      (.ok () (w₂.define inner ⟨result⟩ (value none))) := .of_forall fun _ => rfl
  have hsearch := ((hcall.trans hlet).trans (.after hvalue _)).trans (.after hdefineRuns _)
  have hsearch := hsearch.trans (Site.matches_sequence loop (.sym ⟨result⟩))
  have haside := hcalled.trans (hopen.trans hdefine)
  generalize w₂.define inner ⟨result⟩ (value none) = w₃ at hdefine hdefined haside hsearch
  obtain ⟨turnForm, c, hturn, hturnrange, hwalks, hc, hloops⟩ :=
    loop_starts h hother hloop hlooprange (hw₂.aside hdefine hdefined.sound) haside hdefined
  exact ⟨w₃, outer, inner, turnForm, c, haside, hdefined, hturn, hturnrange, hwalks, hc,
    hsearch.trans hloops⟩

/-- A search comes to what asking about the elements ends in. -/
theorem search_calls (hplain : (⟨result⟩ : Symbol).isKeyword = false)
    (hturns : ∀ outer inner turnForm, Encodes (Reached i f start els) turnForm turn →
      start.InRange turnForm → Turns i f s start els outer inner wanted result value turnForm) :
    ∃ answers e, Asks i f start wanted start els answers e ∧
      ∀ r, i.Calls start (.closure (p fn)) [f, s] r ↔ e.outcome? value = some r := by
  obtain ⟨w₁, outer, inner, turnForm, c, haside, hwork, hturn, hrange, hwalks, hc, hcall⟩ :=
    search_starts h hparameters hcode hresult hother hfirst
  obtain ⟨answers, e, hasks, hconcludes⟩ := turns_ask h (hturns outer inner turnForm hturn hrange)
    hwalks hc (.aside .start haside hwork.sound) hwork
  refine ⟨answers, e, hasks.before haside, fun r => ?_⟩
  rw [calls_root, hcall r]
  have hrising := rising_loopRuns i inner turnForm c
  -- behind the loop there is the result
  have hfound {found : Option Value} {w' : World} (hw' : Reached i f start els w' ∧
      start.AtWork w' i.env inner (searchFrames outer inner f s result (value found))) :
      Reaches ((site i inner).valueRuns (.sym ⟨result⟩)) w' (.ok (value found) w') := by
    have hbound : (searchFrames outer inner f s result (value found)).findSome?
        (fun e => Bindings.get? ⟨result⟩ e.2) = some (value found) := by
      have hhere : Bindings.get? ⟨result⟩ (Bindings.ofNames [(⟨result⟩, value found)]) =
        some (value found) := by simp [Bindings.get?, Bindings.ofNames]
      rw [List.findSome?_cons, hhere]
    have hvalue : (site i inner).HasValue w' (.sym ⟨result⟩) (value found) w' :=
      Site.value_of_bound hplain (h.stands.bound_local hw'.1 hw'.2.scope hbound)
    exact hvalue.reaches
  have hends {r' : EStateM.Result Stop World Value} (hr' : Reaches (fun n =>
      loopRuns i inner turnForm c n >>= fun _ =>
        (site i inner).valueRuns (.sym ⟨result⟩) n) w₁ r') :
      Reaches (fun n => loopRuns i inner turnForm c n >>= fun _ =>
        (site i inner).valueRuns (.sym ⟨result⟩) n) w₁ r ↔ some r' = some r :=
    ⟨fun hr => congrArg some (hr'.unique hr), fun hr => Option.some.inj hr ▸ hr'⟩
  cases e with
  | through w' | found a w' => exact hends (hconcludes.1.bind hrising (hfound hconcludes.2))
  | stopped st w' => exact hends (hconcludes.bind_error hrising _)
  | endless =>
    refine ⟨fun hr => absurd hr (Run.not_reaches_bind hconcludes hrising _ r), fun hr => ?_⟩
    cases hr

end

section
variable {f s : Value} {start : World} {els : List Element} (h : Undisturbed i p f s start els)
include h

/-- `some` asks up to the first answer that is true, which is its result; without one
it is `nil`. -/
theorem some_calls : ∃ answers e, Asks i f start Value.isTruthy start els answers e ∧
    ∀ r, i.Calls start (.closure (p .some)) [f, s] r ↔
      e.outcome? (fun found => found.getD .nil) = some r := by
  refine search_calls h rfl rfl (fun _ => trivial) (by decide) (fun w env _ v _ _ hv => ?_) rfl
    fun _ _ _ hturn hrange => some_turns h hturn hrange
  obtain rfl := hv.of_nil
  exact .atom (fun _ => rfl) w

/-- `every?` asks up to the first answer that is false, and its result is whether there is none. -/
theorem every_calls : ∃ answers e, Asks i f start (fun a => !a.isTruthy) start els answers e ∧
    ∀ r, i.Calls start (.closure (p .every)) [f, s] r ↔
      e.outcome? (fun found => .bool found.isNone) = some r := by
  refine search_calls h rfl rfl (fun _ => trivial) (by decide)
    (fun w env _ v hw hscope hv => ?_) rfl
    fun _ _ _ hturn hrange => every_turns h hturn hrange
  exact h.stands.value_builtin hw hscope rfl (by simp [builtins]) hv

end

end Prelude

end TemplateLisp
