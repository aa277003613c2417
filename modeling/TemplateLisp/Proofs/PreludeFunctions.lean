import TemplateLisp.Proofs.LoadedPrelude
import TemplateLisp.Proofs.PreludeRemovals

/-!
# What the functions of the prelude do

`some`, `every?`, `remove` and `sum` are programs of the language. Wherever they and what they use
are what the prelude has made them, they come to what is said of them here, whatever the function
does that they call: `Prelude.functions_correct`.
-/

namespace TemplateLisp

namespace Prelude

open Run (Reaches Matches)
open World (Encodes AtWork Shows)

/-! ## Adding up -/

/-- What the built-in function `+` makes of two values. -/
def plus (a x : Value) : Run Value := Run.orHostFault Builtin.add.hostName (Arithmetic.sum [a, x])

/-- The run gives a value or ends with an error. -/
def Settles {α : Type} (x : Run α) (w : World) : Prop :=
  (∃ a w', x.run w = .ok a w') ∨ ∃ e w', x.run w = .error (.error e) w'

theorem Settles.orHostFault {α : Type} {x : Run α} {w : World} (name : String)
    (h : Settles x w ∨ ∃ f w', x.run w = .error (.crash f) w') :
    Settles (Run.orHostFault name x) w := by
  rw [Settles, Run.orHostFault, Run.run_tryCatch]
  rcases h with (⟨a, w', h⟩ | ⟨e, w', h⟩) | ⟨f, w', h⟩
  · rw [h]
    exact .inl ⟨a, w', rfl⟩
  · rw [h]
    exact .inr ⟨e, w', rfl⟩
  · rw [h]
    exact .inr ⟨_, w', rfl⟩

theorem number_settles (n : Number) (w : World) : Settles (Run.number n) w := by
  unfold Run.number
  split <;> exact .inl ⟨_, _, rfl⟩

theorem plus_settles (a x : Value) (w : World) : Settles (plus a x) w := by
  cases a with
  | num n =>
    cases x with
    | num m =>
      refine .orHostFault _ ?_
      simp only [Arithmetic.sum, Argument.number, Arithmetic.fold, pure_bind]
      cases n.add m with
      | ok k => exact .inl (number_settles k w)
      | error fault =>
        cases fault with
        | mixed | zeroDivisor => exact .inl (.inr ⟨_, _, rfl⟩)
        | _ => exact .inr ⟨_, _, rfl⟩
    | _ => exact .inr ⟨_, _, rfl⟩
  | _ => exact .inr ⟨_, _, rfl⟩

theorem folded_settles (acc : Value) (xs : List Value) (w : World) :
    Settles (Sequences.foldLeft plus acc xs) w := by
  induction xs generalizing acc w with
  | nil => exact .inl ⟨_, _, rfl⟩
  | cons x xs ih =>
    rw [Settles, Sequences.foldLeft, EStateM.run_bind]
    rcases plus_settles acc x w with ⟨a, w', h⟩ | ⟨e, w', h⟩
    · rw [h]
      exact ih a w'
    · rw [h]
      exact .inr ⟨e, w', rfl⟩

/-- A run that settles comes to what it does, whoever reports it. -/
theorem Settles.reaches {α : Type} {x : Run α} {w : World} (h : Settles x w) (name : String)
    (r : EStateM.Result Stop World α) :
    Reaches (fun _ => Run.orHostFault name x) w r ↔ x.unplaced.run w = r := by
  have hsame : (Run.orHostFault name x).unplaced.run w = x.unplaced.run w := by
    rw [Run.run_orHostFault_unplaced, Run.run_unplaced]
    rcases h with ⟨a, w', h⟩ | ⟨e, w', h⟩ <;> rw [h] <;> rfl
  refine ⟨fun ⟨_, n, hn⟩ => hsame ▸ hn n (Nat.le_refl n), fun hr =>
    ⟨fun w' hw' => ?_, 0, fun _ _ => ?_⟩⟩
  · rw [← hr, Run.run_unplaced] at hw'
    rcases h with ⟨a, w', h⟩ | ⟨e, w', h⟩ <;> rw [h] at hw' <;> cases hw'
  · exact hsame.trans hr

section
variable [Host] {i : Interpreter} {p : Function → ClosureRef}

/-- `sum` folds `+` from the left over the elements, from zero on. -/
theorem sum_calls {s : Value} {start : World} {els : List Element} (hsound : start.Sound)
    (hstands : Stands i p (· = start)) (hs : start.InRange s)
    (hcontents : start.contents? s = some els) :
    ∃ xs w, start.Aside start w ∧ start.ShowsAll w els xs ∧
      ∀ r, i.Calls start (.closure (p .sum)) [s] r ↔
        (Sequences.foldLeft plus (.int 0) xs).unplaced.run w = r := by
  have hstands := hstands.aside hsound
  obtain ⟨body, w₁, hcalled, hwork, -, hbody, -, hcall⟩ := hstands.called (.refl _ start) hsound
    (.refl start) .sum [s] [(⟨"seq"⟩, s)] (List.forall_mem_singleton.2 hs) fun _ => rfl
  generalize (⟨start.frames.size⟩ : FrameRef) = env at hwork hcall
  obtain ⟨q, forms, pos, rfl, hq, hforms⟩ := hbody.call
  have hreduce : (site i env).Names w₁ ⟨"reduce"⟩ (.builtin .reduce) :=
    hstands.names_builtin hcalled hwork.scope rfl (by simp [builtins])
  have hadd (e : Value) (he : Encodes (start.Aside start) e (name "+")) :
      (site i env).HasValue w₁ e (.builtin .add) w₁ :=
    hstands.value_builtin hcalled hwork.scope rfl (by simp [builtins]) he
  have hseq (e : Value) (he : Encodes (start.Aside start) e (name "seq")) :
    (site i env).HasValue w₁ e s w₁ :=
    hstands.value_local hcalled hwork.scope rfl rfl he
  have hzero (e : Value) (he : Encodes (start.Aside start) e (.num (.int 0))) :
      (site i env).HasValue w₁ e (.int 0) w₁ := by
    obtain rfl := he.of_num
    exact .atom (fun _ => rfl) w₁
  have hgives := gives_code hforms hcalled (.cons hadd (.cons hseq (.cons hzero .nil)))
  have hsum :=
    (hcall.trans (Site.matches_given (site_of i env) rfl (hq w₁ hcalled) hreduce hgives)).trans
    (Site.matches_builtin (site_of i env) rfl _ _)
  obtain ⟨xs, w₂, -, hshows, hextends, hrun⟩ := Sequences.reduce_contents (f := .builtin .add) rfl
    (hcalled.contents? hcontents hsound hs) .unbounded
  -- each step is a call of `+`, which needs no fuel of its own
  have hstep (n : Nat) (a x : Value) : call (n + 1) (site i env) (.builtin .add) [a, x] =
    plus a x := by
    have hroom : (site i env).room.enter? = some .unbounded := rfl
    rw [(site_of i env).call_builtin hroom]
    rfl
  have hfold :
    Matches (fun n => Run.orHostFault Builtin.reduce.hostName (Builtin.run (site i env).room
      (call n (site i env)) .reduce [.builtin .add, s, .int 0])) w₁
      (fun _ =>
        Run.orHostFault Builtin.reduce.hostName (Sequences.foldLeft plus (.int 0) xs)) w₂ := by
    refine .of_run 0 1 0 fun n _ => ?_
    have htaken := (hrun (call (n + 1) (site i env))).1 (.int 0)
    simp only [hstep] at htaken
    rw [Run.orHostFault, Run.orHostFault, Run.run_tryCatch, Run.run_tryCatch, ← htaken]
    rfl
  refine ⟨xs, w₂, hcalled.trans (.of_extends hextends),
    hshows.imp fun _ _ hx => hx.since hcalled.toKeeps.cells, fun r => ?_⟩
  rw [calls_root, hsum.trans hfold r]
  exact (folded_settles _ _ _).reaches _ r

/-! ## Functions that tell elements apart -/

section
variable {f s : Value} {start w : World} {els : List Element} {g : Element → Bool}

/-- A function that only tells elements apart disturbs nothing. -/
theorem Undisturbed.of_tells (hsound : start.Sound) (hstands : Stands i p (· = start))
    (hcallable : f.isCallable = true) (hf : start.InRange f) (hs : start.InRange s)
    (hcontents : start.contents? s = some els) (h : Tells i f start els g) :
    Undisturbed i p f s start els := by
  have hproceeds {pending : List Element} {w : World} (hw : Proceeds i f start els pending w) :=
    h.aside hsound (hstands.root_inRange rfl hsound) hf
      (World.contents?_known hcontents hsound hs) hw
  have haside {w : World} (hw : Reached i f start els w) : start.Aside start w := by
    obtain ⟨pending, hw⟩ := hw
    exact (hproceeds hw).1
  refine ⟨hsound, hcallable, hf, hs, hcontents, (hstands.aside hsound).mono fun _ hw => haside hw,
    fun _ hw => World.SameSequence.of_aside hcontents hsound hs (haside hw), ?_⟩
  rintro w x pending ⟨el', hw, hx⟩ env r
  obtain ⟨hstep, hw, hpending⟩ := hproceeds hw
  obtain ⟨el, hel, hshows⟩ := hpending el' (.head _)
  obtain ⟨a, w', hcalls, -⟩ := h w el x hel hstep hw (hshows w x (.refl w) hx)
  exact ⟨fun hr => (hcalls env).unique hr ▸ hcalls i.env, fun hr =>
    (hcalls i.env).unique hr ▸ hcalls env⟩

/-- Such a function is asked about all elements, and it gives each the answer that the
element has. -/
theorem Tells.asked {els' : List Element} {xs answers : List Value} {e : Ending}
    (h : Tells i f start els g)
    (hasks : Asks i f start (fun _ => false) w (xs.map .value) answers e) (hw : start.Aside start w)
    (hshows : start.ShowsAll w els' xs) (hels : ∀ el ∈ els', el ∈ els) :
    answers.map (·.isTruthy) = els'.map g ∧ ∃ w', e = .through w' ∧ start.Aside w w' := by
  induction els' generalizing xs w answers with
  | nil =>
    cases hshows
    cases hasks with
    | through aside => exact ⟨rfl, _, rfl, aside⟩
  | cons el els' ih =>
    obtain _ | @⟨_, x, _, xs, hx, hshows⟩ := hshows
    obtain ⟨hel, hels⟩ := List.forall_mem_cons.1 hels
    have hanswers (w₁ : World) (y : Value) (aside : start.Aside w w₁) (sound : w₁.Sound)
      (hy : y = x) :
        ∃ a w', i.Calls w₁ f [y] (.ok a w') ∧ a.isTruthy = g el ∧ start.Aside w₁ w' := by
      obtain ⟨a, w', hcalls, ha⟩ :=
        h w₁ el y hel (hw.trans aside) sound (hy ▸ hx.keeps aside.toKeeps)
      exact ⟨a, w', hcalls i.env, ha⟩
    obtain ⟨a, w₂, ha, hstep, ⟨⟨⟩, -⟩ | ⟨-, rest, rfl, hothers⟩⟩ := Asks.first hasks hanswers
    obtain ⟨hrest, w', rfl, hlast⟩ := ih hothers (hw.trans hstep)
      (hshows.imp fun _ _ hx => hx.keeps hstep.toKeeps) hels
    exact ⟨by rw [List.map_cons, List.map_cons, ha, hrest], w', rfl, hstep.trans hlast⟩

omit [Host] in
/-- The values that pass show the elements that pass. -/
theorem forall₂_passed {R : Element → Value → Prop} {xs answers : List Value}
    (h : List.Forall₂ R els xs) (hanswers : answers.map (·.isTruthy) = els.map g) :
    List.Forall₂ R (els.filter g) (Sequences.passed xs answers) := by
  induction h generalizing answers with
  | nil => exact .nil
  | @cons el x els xs hx _ ih =>
    cases answers with
    | nil => cases hanswers
    | cons a answers =>
      obtain ⟨ha, hanswers⟩ := List.cons.inj hanswers
      have hrest := ih hanswers
      rw [Sequences.passed] at hrest ⊢
      rw [List.zip_cons_cons, List.filter_cons, List.filter_cons]
      dsimp only at ha ⊢
      rw [ha]
      cases g el
      · exact hrest
      · exact .cons hx hrest

/-- `remove` keeps the elements that a function tells apart in one way, `filter` those that it tells
apart in the other way. -/
theorem partition_calls (h : Undisturbed i p f s start els) (hg : Tells i f start els g) :
    (∃ v w xs, i.Calls start (.closure (p .remove)) [f, s] (.ok v w) ∧ w.ListOf v xs ∧
      start.ShowsAll w (els.filter fun el => !g el) xs) ∧
    ∃ v w xs, i.Calls start (.builtin .filter) [f, s] (.ok v w) ∧ w.ListOf v xs ∧
      start.ShowsAll w (els.filter g) xs := by
  constructor
  · obtain ⟨xs, w, answers, v, e, haside, hshows, hasks, hlist, hcalls⟩ := remove_calls h
    obtain ⟨hanswers, w', rfl, hend⟩ := Tells.asked hg hasks haside hshows fun _ hel => hel
    have hnegated : (answers.map fun a => Value.bool !a.isTruthy).map (·.isTruthy) =
        els.map fun el => !g el := by
      have hnot := congrArg (List.map fun b => !b) hanswers
      rw [List.map_map, List.map_map] at hnot
      rw [List.map_map]
      exact hnot
    refine ⟨v, w', _, (hcalls _).2 rfl, hlist w' rfl, ?_⟩
    rw [← passed_negated]
    exact forall₂_passed (hshows.imp fun _ _ hx => hx.keeps hend.toKeeps) hnegated
  · obtain ⟨xs, w, answers, v, e, haside, hshows, hasks, hlist, hcalls⟩ := filter_calls h
    obtain ⟨hanswers, w', rfl, hend⟩ := Tells.asked hg hasks haside hshows fun _ hel => hel
    exact ⟨v, w', _, (hcalls _).2 rfl, hlist w' rfl,
      forall₂_passed (hshows.imp fun _ _ hx => hx.keeps hend.toKeeps) hanswers⟩

end

/-- Called on an integer, `even?` says whether the remainder by two is zero. -/
theorem even_calls (i : Interpreter) (env : FrameRef) (w : World) (n : Int) :
    i.CallsFrom env w (.builtin .isEven) [.int n] (.ok (.bool (n.fmod 2 == 0)) w) := by
  have hof := site_of i env
  refine (Interpreter.callsFrom_iff hof rfl).2
    ((Site.matches_builtin hof rfl _ _ _).2 (Run.ComesTo.of_forall fun _ => ?_).reaches)
  rfl

/-- Whether the element is an even integer. -/
def isEven : Element → Bool
  | .value (.num (.int n)) => n.fmod 2 == 0
  | _ => false

/-- `even?` only tells integers apart. -/
theorem even_tells (i : Interpreter) (start : World) {els : List Element}
    (h : ∀ el ∈ els, ∃ n, el = .value (.int n)) : Tells i (.builtin .isEven) start els isEven := by
  rintro w _ x hel - - hx
  obtain ⟨n, rfl⟩ := h _ hel
  obtain rfl : x = .int n := hx
  exact ⟨_, w, fun env => even_calls i env w n, rfl, .refl start w⟩

/-! ## All of them -/

end

end Prelude

end TemplateLisp
