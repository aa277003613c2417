import TemplateLisp.Proofs.Fuel
import TemplateLisp.Host.Sample

/-!
# Tail calls and direct evaluation

A form can be evaluated in tail position, where the call of a closure is handed back and carried out
by the trampoline of `evaluate`, or outside of it, where the call is carried out on the spot by a
loop of its own. `direct_evaluation_agrees` says that the two come to the same: the same value in
the same world, or the same stop, up to the place that an error is given. The places do differ. A
call that is handed back has left the forms around it by the time its body fails.

The proof compares the two with little fuel. With the same fuel direct evaluation lies below the
trampoline (`direct_below_trampoline`), because what a call has left for its loop is no more than
what the trampoline starts with. The other way round the trampoline with fuel `n` and `N` lies below
direct evaluation with `n + N` (`trampoline_below_direct`): the levels down to a call in tail
position use up at most `n`, and `N` is left for the loop. Both are one level of
`Evaluator.Correspondence` and an induction on the fuel.
-/

namespace TemplateLisp

/-! ## Leaving places aside -/

/-- The stop without the place that an error was given. -/
def Stop.unplaced : Stop → Stop
  | .error e => .error { e with pos := none }
  | s => s

namespace Run

section
variable {α β : Type}

/-- The run with errors that have no place. -/
def unplaced (x : Run α) : Run α := x.adaptExcept Stop.unplaced

/-- The outcome without the place that an error was given. -/
def unplacedOutcome : EStateM.Result Stop World α → EStateM.Result Stop World α
  | .ok a w => .ok a w
  | .error s w => .error s.unplaced w

theorem run_unplaced (x : Run α) (w : World) :
    x.unplaced.run w = unplacedOutcome (x.run w) := by
  rw [unplaced, EStateM.run_adaptExcept]
  cases x.run w <;> rfl

/-- Only errors have places. -/
theorem unplacedOutcome_eq_error_iff {r : EStateM.Result Stop World α} {s : Stop} {w : World}
    (hs : ∀ e, s ≠ .error e) : unplacedOutcome r = .error s w ↔ r = .error s w := by
  cases r with
  | ok a w' => simp [unplacedOutcome]
  | error t w' =>
    cases t with
    | error e =>
      have h₁ : (Stop.error { e with pos := none }) ≠ s := fun h => hs _ h.symm
      have h₂ : (Stop.error e) ≠ s := fun h => hs _ h.symm
      simp [unplacedOutcome, Stop.unplaced, h₁, h₂]
    | _ => simp [unplacedOutcome, Stop.unplaced]

theorem unplaced_bind (x : Run α) (f : α → Run β) :
    (x >>= f).unplaced = x.unplaced >>= fun a => (f a).unplaced := by
  refine ext fun w => ?_
  rw [run_unplaced, EStateM.run_bind, EStateM.run_bind, run_unplaced]
  cases x.run w with
  | ok a w' => exact (run_unplaced (f a) w').symm
  | error s w' => rfl

/-- Where a form is placed does not matter once places are left aside. -/
theorem unplaced_placed (pos : Option Pos) (x : Run α) : (placed pos x).unplaced = x.unplaced := by
  refine ext fun w => ?_
  rw [run_unplaced, run_unplaced, placed, run_tryCatch]
  cases x.run w with
  | ok a w' => rfl
  | error s w' =>
    cases s with
    | error e => cases e with | mk fault pos' => cases pos' <;> rfl
    | _ => rfl

theorem Below.unplaced {x y : Run α} (h : x.Below y) : x.unplaced.Below y.unplaced := by
  intro w
  rw [run_unplaced, run_unplaced]
  rcases h w with ⟨w', hx⟩ | hx
  · exact .inl ⟨w', by rw [hx]; rfl⟩
  · exact .inr (by rw [hx])

theorem ComesTo.unplaced {x : Nat → Run α} {w : World} {r : EStateM.Result Stop World α}
    (h : ComesTo x w r) : ComesTo (fun n => (x n).unplaced) w (unplacedOutcome r) := by
  obtain ⟨hr, n, hn⟩ := h
  refine ⟨fun w' hw => hr w' ((unplacedOutcome_eq_error_iff (by simp)).1 hw), n, fun m hm => ?_⟩
  rw [run_unplaced, hn m hm]

/-- A run that comes to an outcome without its places comes to one with them. -/
theorem ComesTo.of_unplaced {x : Nat → Run α} {w : World} {r : EStateM.Result Stop World α}
    (hx : ∀ {n m}, n ≤ m → Below (x n) (x m)) (h : ComesTo (fun n => (x n).unplaced) w r) :
    ∃ r', ComesTo x w r' ∧ unplacedOutcome r' = r := by
  obtain ⟨hr, n, hn⟩ := h
  have hrun : unplacedOutcome ((x n).run w) = r := by
    rw [← run_unplaced]
    exact hn n (Nat.le_refl n)
  have hends : ∀ w', (x n).run w ≠ .error .endless w' := by
    intro w' hw
    rw [hw] at hrun
    exact hr w' hrun.symm
  refine ⟨(x n).run w, ⟨hends, n, fun m hm => ?_⟩, hrun⟩
  rcases hx hm w with ⟨w', hw⟩ | hw
  · exact absurd hw (hends w')
  · exact hw.symm

end

end Run

/-! ## Carrying out what is left of an answer -/

/-- The value of an answer: the call that it may be is carried out. -/
def Evaluator.settle (e : Evaluator) (site : Site) (fuel : Nat) {tail : Bool} :
    Answer tail → Run Value
  | .value v => pure v
  | .call r env => e.complete site fuel (.call r env)

theorem Evaluator.settle_eq_complete (e : Evaluator) (site : Site) (fuel : Nat) (a : Answer true) :
    e.settle site fuel a = e.complete site fuel a := by
  cases a with
  | value v => cases fuel <;> rfl
  | call r env => rfl

/-- Calls that are carried out do not see the frame of their caller. -/
theorem Evaluator.complete_env (e : Evaluator) (site : Site) (env : FrameRef) (fuel : Nat)
    (a : Answer true) : e.complete { site with env := env } fuel a = e.complete site fuel a := by
  induction fuel generalizing a with
  | zero => cases a <;> rfl
  | succ n ih =>
    cases a with
    | value v => rfl
    | call r env =>
      simp only [Evaluator.complete]
      congr 1
      funext body
      congr 1
      funext a
      exact ih a

/-- Without a bound on nesting, the site one level further down is the same. -/
theorem Site.deeper_of_unbounded (site : Site) (hroom : site.room = .unbounded) :
    site.deeper = pure site := by
  obtain ⟨env, macros, ambient, room⟩ := site
  subst hroom
  rfl

section
variable {site : Site} (hroom : site.room = .unbounded)
include hroom

/-- Two evaluations correspond if they come to the same, up to places, once the calls that they hand
back are carried out with fuel `a` and `b`. What is left to show is that this is so for a form and
for the call of a closure. -/
theorem settledCorrespondence [Host] {e e' : Evaluator} {n m a b : Nat} {tail tail' : Bool}
    (below : e.Below e') (fuel_le : n ≤ m)
    (eval : ∀ env v, Run.Below
      (e.eval tail { site with env := env } v >>= (evaluator a).settle site a).unplaced
      (e'.eval tail' { site with env := env } v >>= (evaluator b).settle site b).unplaced)
    (finish : ∀ env r f, Run.Below
      (e.finish n { site with env := env } r f tail >>= (evaluator a).settle site a).unplaced
      (e'.finish m { site with env := env } r f tail' >>= (evaluator b).settle site b).unplaced) :
    e.Correspondence e' n m (fun s => ∃ env, s = { site with env := env })
      (fun (x : Run (Answer tail)) (y : Run (Answer tail')) => Run.Below
        (x >>= (evaluator a).settle site a).unplaced
        (y >>= (evaluator b).settle site b).unplaced) where
  below := below
  fuel_le := fuel_le
  value _ := .refl _
  stop _ := .refl _
  bind hxy hfg := by
    rw [bind_assoc, bind_assoc, Run.unplaced_bind, Run.unplaced_bind]
    exact .bind hxy.unplaced hfg
  placed pos hxy := by
    rw [Run.unplaced_bind, Run.unplaced_bind] at hxy ⊢
    rwa [Run.unplaced_placed, Run.unplaced_placed]
  env env := by
    rintro ⟨_, rfl⟩
    exact ⟨env, rfl⟩
  deeper := by
    rintro _ f g ⟨env, rfl⟩ hfg
    rw [Site.deeper_of_unbounded { site with env := env } hroom, pure_bind, pure_bind]
    exact hfg _ ⟨env, rfl⟩
  eval := by
    rintro _ v ⟨env, rfl⟩
    exact eval env v
  finish := by
    rintro _ r f ⟨env, rfl⟩
    exact finish env r f

/-- With the same fuel, direct evaluation lies below the trampoline. -/
theorem direct_below_trampoline [Host] {n N : Nat} (hle : n ≤ N) (env : FrameRef) (v : Value) :
    Run.Below (eval n false { site with env := env } v >>= (evaluator N).settle site N).unplaced
      (eval n true { site with env := env } v >>= (evaluator N).settle site N).unplaced := by
  induction n generalizing env v with
  | zero => exact .endless _
  | succ n ih =>
    have hn : n ≤ N := by omega
    refine (settledCorrespondence hroom (evaluator_below (Nat.le_refl n)) (Nat.le_refl n)
      (ih hn) fun env r f => ?_).any ⟨env, rfl⟩ v
    -- The loop of the call has fuel `n`, the trampoline starts with `N`.
    have hcall : Run.Below ((evaluator n).complete { site with env := env } n (.call r f))
        ((evaluator N).complete site N (.call r f)) := by
      rw [Evaluator.complete_env _ site env]
      exact (evaluator_below hn).complete hn site _
    simp only [Evaluator.finish, bind_assoc, pure_bind, Evaluator.settle, bind_pure]
    exact hcall.unplaced

/-- The trampoline lies below direct evaluation with fuel for its levels and for its loop. -/
theorem trampoline_below_direct [Host] (n N : Nat) (env : FrameRef) (v : Value) :
    Run.Below (eval n true { site with env := env } v >>= (evaluator N).settle site N).unplaced
      (eval (n + N) false { site with env := env } v >>= (evaluator N).settle site N).unplaced := by
  induction n generalizing env v with
  | zero => exact .endless _
  | succ n ih =>
    rw [Nat.succ_add]
    refine (settledCorrespondence hroom (evaluator_below (Nat.le_add_right n N))
      (Nat.le_add_right n N) ih fun env r f => ?_).any ⟨env, rfl⟩ v
    have hle : N ≤ n + N := by omega
    have hcall : Run.Below ((evaluator N).complete site N (.call r f))
        ((evaluator (n + N)).complete { site with env := env } (n + N) (.call r f)) := by
      rw [Evaluator.complete_env _ site env]
      exact (evaluator_below hle).complete hle site _
    simp only [Evaluator.finish, bind_assoc, pure_bind, Evaluator.settle, bind_pure]
    exact hcall.unplaced

end

/-! ## Direct evaluation and the trampoline -/

theorem eval_settle_direct [Host] (site : Site) (n N : Nat) (v : Value) :
    (eval n false site v >>= (evaluator N).settle site N) = (evaluator n).value site v := by
  refine congrArg (eval n false site v >>= ·) (funext fun a => ?_)
  cases a with
  | value x => rfl

theorem eval_settle_trampoline [Host] (site : Site) (n : Nat) (v : Value) :
    (eval n true site v >>= (evaluator n).settle site n) = evaluate n site v :=
  congrArg (eval n true site v >>= ·) (funext fun a => Evaluator.settle_eq_complete _ _ _ a)

/-- Up to places, direct evaluation and the trampoline come to the same outcomes. -/
theorem value_comesTo_iff_evaluate_comesTo [Host] {site : Site} (hroom : site.room = .unbounded)
    (v : Value) (w : World) (r : EStateM.Result Stop World Value) :
    Run.ComesTo (fun n => ((evaluator n).value site v).unplaced) w r ↔
      Run.ComesTo (fun n => (evaluate n site v).unplaced) w r := by
  constructor
  · intro h
    refine h.of_below (fun n => n) (fun n => ?_) fun hle => (evaluate_below hle site v).unplaced
    rw [← eval_settle_direct site n n v, ← eval_settle_trampoline site n v]
    exact direct_below_trampoline hroom (Nat.le_refl n) site.env v
  · intro h
    refine h.of_below (fun n => n + n) (fun n => ?_) fun hle =>
      ((evaluator_below hle).value site v).unplaced
    rw [← eval_settle_direct site (n + n) n v, ← eval_settle_trampoline site n v]
    exact trampoline_below_direct hroom n n site.env v

/-- A run that comes to the outcomes of another, up to places, ends where the other does. -/
theorem Run.Terminates.of_unplaced {α : Type} {x y : Nat → Run α} {w : World}
    (hy : ∀ {n m}, n ≤ m → Run.Below (y n) (y m))
    (hxy : ∀ r, Run.ComesTo (fun n => (x n).unplaced) w r →
      Run.ComesTo (fun n => (y n).unplaced) w r) (h : Run.Terminates x w) :
    Run.Terminates y w := by
  obtain ⟨r, hr, hdeep⟩ := h
  obtain ⟨r', hr', heq⟩ := (hxy _ hr.unplaced).of_unplaced hy
  refine ⟨r', hr', fun w' hw => hdeep w' ?_⟩
  rw [hw] at heq
  exact (Run.unplacedOutcome_eq_error_iff (by simp)).1 heq.symm

/-- Direct evaluation and the trampoline agree. Outside of tail position no call is handed back.
With nesting unbounded, direct evaluation of a form ends exactly where evaluation by the trampoline
does, and what the two come to is the same up to the place of an error: the same value, returned
value, error or failure of the host, in the same world. -/
theorem direct_evaluation_agrees [Host] (site : Site) (hroom : site.room = .unbounded) (v : Value)
    (w : World) :
    (∀ n a w', (eval n false site v).run w = .ok a w' → ∃ x, a = .value x) ∧
    (Run.Terminates (fun n => (evaluator n).value site v) w ↔
      Run.Terminates (fun n => evaluate n site v) w) ∧
    ∀ r r', Run.ComesTo (fun n => (evaluator n).value site v) w r →
      Run.ComesTo (fun n => evaluate n site v) w r' →
      Run.unplacedOutcome r = Run.unplacedOutcome r' := by
  refine ⟨fun n a w' _ => ?_, ⟨fun h => ?_, fun h => ?_⟩, fun r r' hr hr' => ?_⟩
  · cases a with
    | value x => exact ⟨x, rfl⟩
  · exact h.of_unplaced (fun hle => evaluate_below hle site v)
      fun r => (value_comesTo_iff_evaluate_comesTo hroom v w r).1
  · exact h.of_unplaced (fun hle => (evaluator_below hle).value site v)
      fun r => (value_comesTo_iff_evaluate_comesTo hroom v w r).2
  · have h := (value_comesTo_iff_evaluate_comesTo hroom v w _).1 hr.unplaced
    exact h.unique hr'.unplaced

/-- A world with one form, the call of a closure that gives its argument, with the
argument seven. -/
def identityCall : World :=
  { World.empty with
    cells := #[⟨.closure ⟨0⟩, .cell ⟨1⟩, some ⟨1, 1⟩⟩, ⟨.int 7, .nil, none⟩]
    closures := #[⟨.nil, ⟨[⟨"x"⟩], [], none⟩, .sym ⟨"x"⟩, ⟨0⟩, none⟩]
    frames := #[⟨[], none⟩] }

/-- The root of `identityCall`, without macros and with nesting unbounded. -/
def identitySite : Site := ⟨⟨0⟩, ⟨0⟩, none, .unbounded⟩

open scoped SampleHost in
/-- The call is handed back to the trampoline and carried out directly, and both give seven. -/
theorem direct_evaluation_agrees_on_call :
    identitySite.room = .unbounded ∧
    (∃ a w, (eval 3 true identitySite (.cell ⟨0⟩)).run identityCall = .ok (.call ⟨0⟩ a) w) ∧
    (∃ w, ((evaluator 3).value identitySite (.cell ⟨0⟩)).run identityCall = .ok (.int 7) w) ∧
    (Run.Terminates (fun n => (evaluator n).value identitySite (.cell ⟨0⟩)) identityCall ↔
      Run.Terminates (fun n => evaluate n identitySite (.cell ⟨0⟩)) identityCall) ∧
    ∀ r r', Run.ComesTo (fun n => (evaluator n).value identitySite (.cell ⟨0⟩)) identityCall r →
      Run.ComesTo (fun n => evaluate n identitySite (.cell ⟨0⟩)) identityCall r' →
      Run.unplacedOutcome r = Run.unplacedOutcome r' :=
  ⟨rfl, ⟨_, _, rfl⟩, ⟨_, rfl⟩,
    (direct_evaluation_agrees identitySite rfl (.cell ⟨0⟩) identityCall).2⟩

end TemplateLisp
