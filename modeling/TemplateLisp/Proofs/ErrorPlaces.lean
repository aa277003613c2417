import TemplateLisp.Proofs.Trampoline
import TemplateLisp.Proofs.Transcript
import TemplateLisp.Host.Sample

/-!
# The places of errors

A form that carries a place gives it to every error that leaves its evaluation without one
(`eval_error_placed`), in tail position and outside of it. The trampoline carries out a call that is
handed back when the forms around the call have been left, so nothing is given to an error of the
body itself.

`HandsOn` says how the trampoline comes from call to call, and `evaluate_error_iff` that its errors
are those of the form and of the bodies of the calls it comes to. `evaluate_unplaced_iff` then says
exactly when an error of a form that carries a place comes out without one: some body does not carry
a place, and evaluating it fails without one.
-/

namespace TemplateLisp

/-! ## Errors of one evaluation -/

namespace Run

variable {α : Type}

/-- What giving a place does to an outcome. -/
def placedOutcome (pos : Option Pos) : EStateM.Result Stop World α → EStateM.Result Stop World α
  | .error (.error e) w => .error (.error (e.placedAt pos)) w
  | r => r

theorem run_placed (pos : Option Pos) (x : Run α) (w : World) :
    (placed pos x).run w = placedOutcome pos (x.run w) := by
  rw [placed, run_tryCatch]
  cases x.run w with
  | ok a w' => rfl
  | error s w' => cases s <;> rfl

end Run

theorem Error.placedAt_pos_ne_none {e : Error} {pos : Option Pos} (h : pos ≠ none) :
    (e.placedAt pos).pos ≠ none := by
  obtain ⟨fault, pos'⟩ := e
  cases pos' with
  | none => exact h
  | some p => nofun

theorem Run.placedOutcome_error {α : Type} {pos : Option Pos}
    {r : EStateM.Result Stop World α} {e : Error} {w : World} (hpos : pos ≠ none)
    (h : placedOutcome pos r = .error (.error e) w) : e.pos ≠ none := by
  cases r with
  | ok a w' => cases h
  | error s w' =>
    cases s with
    | error e' =>
      cases h
      exact Error.placedAt_pos_ne_none hpos
    | _ => cases h

section
variable {fuel : Nat} {tail : Bool} {site : Site} {w w' : World} {e : Error}

/-- An error that leaves the evaluation of a form with a place has a place. -/
theorem eval_error_placed [Host] {r : CellRef} (hpos : (w.cell r).pos ≠ none)
    (h : (eval fuel tail site (.cell r)).run w = .error (.error e) w') : e.pos ≠ none := by
  cases fuel with
  | zero => cases h
  | succ n =>
    rw [eval, Evaluator.any, Site.deeper] at h
    cases hroom : site.room.enter? with
    | none =>
      rw [hroom] at h
      cases h
    | some room =>
      simp only [hroom, pure_bind] at h
      rw [Run.run_look_bind, Run.run_placed] at h
      exact Run.placedOutcome_error hpos h

/-- What may fail to evaluate with an error that has no place: a variable, a literal of a vector or
a map, and a form that carries no place. -/
def World.Exposed (w : World) : Value → Prop
  | .cell r => (w.cell r).pos = none
  | .sym s => s.isKeyword = false
  | .vector _ => True
  | .map _ => True
  | _ => False

theorem eval_error_exposed [Host] {v : Value} (he : e.pos = none)
    (h : (eval fuel tail site v).run w = .error (.error e) w') : w.Exposed v := by
  cases v with
  | cell r =>
    exact Classical.byContradiction fun hpos => eval_error_placed hpos h he
  | sym s =>
    rw [World.Exposed, Bool.eq_false_iff]
    intro hkeyword
    cases fuel with
    | zero => cases h
    | succ n =>
      rw [eval, Evaluator.any, if_pos hkeyword] at h
      cases h
  | vector | map => trivial
  | _ => cases fuel <;> cases h

end

/-! ## Calls that are handed on -/

/-- A call that is still to be carried out: a closure, the frame that binds its arguments, and the
world in which it was handed back. -/
structure Pending where
  closure : ClosureRef
  env : FrameRef
  world : World

namespace Pending

/-- The body of the closure. -/
def body (c : Pending) : Value := (c.world.closure c.closure).body

/-- Evaluating the body in tail position. -/
def outcome [Host] (c : Pending) (fuel : Nat) (site : Site) :
    EStateM.Result Stop World (Answer true) :=
  (eval fuel true { site with env := c.env } c.body).run c.world

/-- The answer that hands back the call. -/
def answer (c : Pending) : EStateM.Result Stop World (Answer true) :=
  .ok (.call c.closure c.env) c.world

end Pending

/-- The trampoline comes from one call to another in so many steps: the body of each hands back the
next. -/
inductive HandsOn [Host] (fuel : Nat) (site : Site) : Nat → Pending → Pending → Prop where
  | refl (c : Pending) : HandsOn fuel site 0 c c
  | step {n : Nat} {c c' last : Pending} (hands : c.outcome fuel site = c'.answer)
      (rest : HandsOn fuel site n c' last) : HandsOn fuel site (n + 1) c last

section
variable {fuel : Nat} {site : Site}

theorem complete_succ [Host] (n : Nat) (c : Pending) :
    ((evaluator fuel).complete site (n + 1) (.call c.closure c.env)).run c.world =
      match c.outcome fuel site with
      | .ok a w => ((evaluator fuel).complete site n a).run w
      | .error s w => .error s w := by
  have houtcome : ((evaluator fuel).eval true { site with env := c.env }
      (c.world.closure c.closure).body).run c.world = c.outcome fuel site := rfl
  rw [Evaluator.complete, Run.run_look_bind, EStateM.run_bind, houtcome]
  cases c.outcome fuel site <;> rfl

/-- The trampoline ends in an error exactly if the body of a call that it comes to does. -/
theorem complete_error_iff [Host] {n : Nat} {c : Pending} {e : Error} {w : World} :
    ((evaluator fuel).complete site n (.call c.closure c.env)).run c.world = .error (.error e) w ↔
      ∃ k < n, ∃ last, HandsOn fuel site k c last ∧ last.outcome fuel site =
        .error (.error e) w := by
  -- on the calls that may still be carried out; what the body of the next one gives settles whether
  -- there is another
  induction n generalizing c with
  | zero =>
    constructor
    · intro h
      cases h
    · rintro ⟨k, hk, -⟩
      cases hk
  | succ n ih =>
    rw [complete_succ]
    cases hbody : c.outcome fuel site with
    | error s w' =>
      dsimp only
      constructor
      · intro h
        cases h
        exact ⟨0, Nat.zero_lt_succ n, c, .refl c, hbody⟩
      · rintro ⟨k, -, last, hon, hlast⟩
        cases hon with
        | refl =>
          cases hbody.symm.trans hlast
          rfl
        | step hands => cases hbody.symm.trans hands
    | ok a w' =>
      dsimp only
      cases a with
      | value v =>
        constructor
        · intro h
          cases n <;> cases h
        · rintro ⟨k, -, last, hon, hlast⟩
          cases hon with
          | refl => cases hbody.symm.trans hlast
          | step hands => cases hbody.symm.trans hands
      | call r env =>
        have hnext : c.outcome fuel site = (Pending.mk r env w').answer := hbody
        rw [ih (c := ⟨r, env, w'⟩)]
        constructor
        · rintro ⟨k, hk, last, hon, hlast⟩
          exact ⟨k + 1, Nat.succ_lt_succ hk, last, .step hnext hon, hlast⟩
        · rintro ⟨k, hk, last, hon, hlast⟩
          cases hon with
          | refl => cases hbody.symm.trans hlast
          | @step k _ next _ hands rest =>
            cases hnext.symm.trans hands
            exact ⟨k, Nat.lt_of_succ_lt_succ hk, last, rest, hlast⟩

/-- An error of an evaluation by the trampoline is one of evaluating the form, or of evaluating the
body of a call that the trampoline comes to. -/
theorem evaluate_error_iff [Host] {v : Value} {e : Error} {w w' : World} :
    (evaluate fuel site v).run w = .error (.error e) w' ↔
      (eval fuel true site v).run w = .error (.error e) w' ∨
      ∃ first k last, (eval fuel true site v).run w = first.answer ∧ k < fuel ∧
        HandsOn fuel site k first last ∧ last.outcome fuel site = .error (.error e) w' := by
  rw [evaluate, EStateM.run_bind]
  cases heval : (eval fuel true site v).run w with
  | error s w₁ =>
    dsimp only
    constructor
    · intro h
      cases h
      exact .inl rfl
    · rintro (h | ⟨first, -, -, hfirst, -⟩)
      · cases h
        rfl
      · cases hfirst
  | ok a w₁ =>
    dsimp only
    cases a with
    | value v =>
      constructor
      · intro h
        cases fuel <;> cases h
      · rintro (h | ⟨first, -, -, hfirst, -⟩)
        · cases h
        · cases hfirst
    | call c env =>
      have hcomplete := @complete_error_iff fuel site _ fuel ⟨c, env, w₁⟩ e w'
      rw [hcomplete]
      constructor
      · rintro ⟨k, hk, last, hon, hlast⟩
        exact .inr ⟨⟨c, env, w₁⟩, k, last, rfl, hk, hon, hlast⟩
      · rintro (h | ⟨first, k, last, hfirst, hk, hon, hlast⟩)
        · cases h
        · cases hfirst
          exact ⟨k, hk, last, hon, hlast⟩

theorem value_error [Host] {v : Value} {s : Stop} {w w' : World}
    (h : ((evaluator fuel).value site v).run w = .error s w') :
    (eval fuel false site v).run w = .error s w' := by
  have hvalue : ((evaluator fuel).value site v).run w =
      ((eval fuel false site v) >>= fun a => pure a.get).run w := rfl
  rw [hvalue, EStateM.run_bind] at h
  cases heval : (eval fuel false site v).run w with
  | ok a w₁ =>
    rw [heval] at h
    cases h
  | error s w₁ =>
    rw [heval] at h
    cases h
    rfl

/-- When an error without a place comes out of the evaluation of a form that carries a place:
exactly if the form hands back a call, and the trampoline comes from it to a call whose body is
exposed and fails without a place. Evaluating the form itself gives every error a place, and so does
evaluating it outside of tail position. -/
theorem evaluate_unplaced_iff [Host] {r : CellRef} {w : World} (hpos : (w.cell r).pos ≠ none) :
    (∀ tail e w', (eval fuel tail site (.cell r)).run w = .error (.error e) w' → e.pos ≠ none) ∧
    (∀ e w', ((evaluator fuel).value site (.cell r)).run w = .error (.error e) w' → e.pos ≠ none) ∧
    ∀ f w', (evaluate fuel site (.cell r)).run w = .error (.error ⟨f, none⟩) w' ↔
      ∃ first k last, (eval fuel true site (.cell r)).run w = first.answer ∧ k < fuel ∧
        HandsOn fuel site k first last ∧ last.world.Exposed last.body ∧
        last.outcome fuel site = .error (.error ⟨f, none⟩) w' := by
  refine ⟨fun tail e w' h => eval_error_placed hpos h,
    fun e w' h => eval_error_placed hpos (value_error h), fun f w' => ?_⟩
  rw [evaluate_error_iff]
  constructor
  · rintro (h | ⟨first, k, last, hfirst, hk, hon, hlast⟩)
    · exact absurd rfl (eval_error_placed hpos h)
    · exact ⟨first, k, last, hfirst, hk, hon, eval_error_exposed rfl hlast, hlast⟩
  · rintro ⟨first, k, last, hfirst, hk, hon, -, hlast⟩
    exact .inr ⟨first, k, last, hfirst, hk, hon, hlast⟩

end

/-- The form `((fn () x))` at the start of a source, where `x` has no value. -/
def unboundBody : World :=
  { World.empty with
    cells := #[⟨.cell ⟨1⟩, .nil, some ⟨1, 1⟩⟩, ⟨.sym ⟨"fn"⟩, .cell ⟨2⟩, some ⟨1, 2⟩⟩,
      ⟨.nil, .cell ⟨3⟩, none⟩, ⟨.sym ⟨"x"⟩, .nil, none⟩]
    frames := #[⟨[], none⟩] }

open scoped SampleHost in
/-- The trampoline reports the variable without a place, direct evaluation at the form. -/
theorem evaluate_unplaced_unbound :
    (unboundBody.cell ⟨0⟩).pos ≠ none ∧
    (∃ w', ((evaluator 4).value identitySite (.cell ⟨0⟩)).run unboundBody =
      .error (.error ⟨.unbound "x", some ⟨1, 1⟩⟩) w') ∧
    ∃ w', (evaluate 4 identitySite (.cell ⟨0⟩)).run unboundBody =
      .error (.error ⟨.unbound "x", none⟩) w' ∧
      ∃ first k last, (eval 4 true identitySite (.cell ⟨0⟩)).run unboundBody = first.answer ∧
        k < 4 ∧ HandsOn 4 identitySite k first last ∧ last.world.Exposed last.body ∧
        last.outcome 4 identitySite = .error (.error ⟨.unbound "x", none⟩) w' := by
  have hpos : (unboundBody.cell ⟨0⟩).pos ≠ none := by decide
  have hdirect : ∃ w', ((evaluator 4).value identitySite (.cell ⟨0⟩)).run unboundBody =
      .error (.error ⟨.unbound "x", some ⟨1, 1⟩⟩) w' := ⟨_, rfl⟩
  have hfails : ∃ w', (evaluate 4 identitySite (.cell ⟨0⟩)).run unboundBody =
      .error (.error ⟨.unbound "x", none⟩) w' := ⟨_, rfl⟩
  obtain ⟨w', hw'⟩ := hfails
  exact ⟨hpos, hdirect, w', hw', ((evaluate_unplaced_iff hpos).2.2 _ _).1 hw'⟩

end TemplateLisp
