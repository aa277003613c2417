import TemplateLisp.Builtin.Basic
import TemplateLisp.Eval.Basic
import TemplateLisp.Host.Member

/-!
# The order of runs by their steps

A bound on steps cuts a run short. `Run.Below x y` says that `x` is `y` cut short: from every world
`x` runs out of steps, or it does what `y` does. It is an order in which a run that is out of steps
lies below all others, and everything that runs are put together with keeps it: sequencing
(`Run.Below.bind`), loops through lists, and handlers that let `Stop.endless` pass
(`Run.Below.tryCatch`).

The last two parts take the order through the built-in functions that call back and through code of
the host. Of either nothing but its caller can be cut short, so a built-in function, a function of
the host or an access to a member that is given a caller below another lies below itself with the
other (`Builtin.run_below`, `Host.callFunction_below`, `Run.member_below`).
-/

namespace TemplateLisp

namespace Run

section
variable {α β : Type}

/-- `x` is `y` cut short: from every world it runs out of steps or does what `y` does. -/
def Below (x y : Run α) : Prop := ∀ w, (∃ w', x.run w = .error .endless w') ∨ x.run w = y.run w

/-- Runs that do the same from every world are the same. -/
theorem ext {x y : Run α} (h : ∀ w, x.run w = y.run w) : x = y := funext h

/-- What a handler does: it starts where the run stopped. -/
theorem run_tryCatch (x : Run α) (h : Stop → Run α) (w : World) :
    EStateM.run (tryCatch x h : Run α) w = match x.run w with
      | .ok a w' => .ok a w'
      | .error s w' => (h s).run w' := by
  simp only [EStateM.run, tryCatch, tryCatchThe, MonadExceptOf.tryCatch]
  delta EStateM.tryCatch
  cases x w <;> rfl

namespace Below

@[refl] theorem refl (x : Run α) : Below x x := fun _ => .inr rfl

theorem trans {x y z : Run α} (hxy : Below x y) (hyz : Below y z) : Below x z := by
  intro w
  rcases hxy w with hx | hx
  · exact .inl hx
  · rw [hx]
    exact hyz w

/-- A run that is out of steps lies below every other. -/
theorem endless (y : Run α) : Below (throw .endless) y := fun w => .inl ⟨w, rfl⟩

theorem bind {x y : Run α} {f g : α → Run β} (hxy : Below x y) (hfg : ∀ a, Below (f a) (g a)) :
    Below (x >>= f) (y >>= g) := by
  intro w
  rw [EStateM.run_bind, EStateM.run_bind]
  rcases hxy w with ⟨w', hx⟩ | hx
  · exact .inl ⟨w', by rw [hx]⟩
  · rw [← hx]
    cases x.run w with
    | ok a w' => exact hfg a w'
    | error s w' => exact .inr rfl

theorem map {x y : Run α} (f : α → β) (hxy : Below x y) : Below (f <$> x) (f <$> y) := by
  rw [map_eq_pure_bind, map_eq_pure_bind]
  exact bind hxy fun _ => refl _

/-- A handler that lets the end of the steps pass. -/
theorem tryCatch {x y : Run α} {h : Stop → Run α} (hxy : Below x y)
    (hh : h .endless = throw .endless) :
    Below (MonadExcept.tryCatch x h) (MonadExcept.tryCatch y h) := by
  intro w
  rw [run_tryCatch, run_tryCatch]
  rcases hxy w with ⟨w', hx⟩ | hx
  · exact .inl ⟨w', by rw [hx]; exact congrArg (·.run w') hh⟩
  · exact .inr (by rw [hx])

theorem placed {x y : Run α} (pos : Option Pos) (hxy : Below x y) :
    Below (Run.placed pos x) (Run.placed pos y) := tryCatch hxy rfl

theorem ite {c : Prop} [Decidable c] {x x' y y' : Run α} (hx : Below x x') (hy : Below y y') :
    Below (if c then x else y) (if c then x' else y') := by
  split
  · exact hx
  · exact hy

theorem mapM {f g : α → Run β} (hfg : ∀ a, Below (f a) (g a)) (xs : List α) :
    Below (xs.mapM f) (xs.mapM g) := by
  induction xs with
  | nil => exact refl _
  | cons a as ih =>
    rw [List.mapM_cons, List.mapM_cons]
    exact bind (hfg a) fun _ => bind ih fun _ => refl _

end Below

end

end Run

/-! ## Sorting -/

namespace Sorting

open Run (Below)

section
variable {α : Type} {less less' : α → α → Run Bool} (hless : ∀ a b, Below (less a b) (less' a b))
include hless

theorem ascend_below (last : α) (run xs : List α) :
    Below (ascend less last run xs) (ascend less' last run xs) := by
  induction xs generalizing last run with
  | nil => exact .refl _
  | cons x xs ih =>
    simp only [ascend]
    exact .bind (hless x last) fun _ => .ite (.refl _) (ih x (x :: run))

theorem descend_below (last : α) (run xs : List α) :
    Below (descend less last run xs) (descend less' last run xs) := by
  induction xs generalizing last run with
  | nil => exact .refl _
  | cons x xs ih =>
    simp only [descend]
    exact .bind (hless x last) fun _ => .ite (ih x (x :: run)) (.refl _)

theorem leadingRun_below (xs : List α) : Below (leadingRun less xs) (leadingRun less' xs) := by
  match xs with
  | [] => exact .refl _
  | [_] => exact .refl _
  | x :: y :: rest =>
    simp only [leadingRun]
    exact .bind (hless y x) fun _ => .ite (descend_below hless y [y, x] rest)
      (.bind (ascend_below hless y [y, x] rest) fun _ => .refl _)

theorem insertWithin_below (x : α) (fuel : Nat) (xs : List α) :
    Below (insertWithin less x fuel xs) (insertWithin less' x fuel xs) := by
  induction fuel generalizing xs with
  | zero => exact .refl _
  | succ n ih =>
    simp only [insertWithin]
    split
    · exact .refl _
    · exact .bind (hless x _) fun _ => .ite (.bind (ih _) fun _ => .refl _)
        (.bind (ih _) fun _ => .refl _)

theorem insertAll_below (sorted xs : List α) :
    Below (insertAll less sorted xs) (insertAll less' sorted xs) := by
  induction xs generalizing sorted with
  | nil => exact .refl _
  | cons x xs ih => exact .bind (insertWithin_below hless x _ sorted) fun s => ih s

theorem sort_below (xs : List α) : Below (sort less xs) (sort less' xs) :=
  .bind (leadingRun_below hless xs) fun (sorted, rest) => insertAll_below hless sorted rest

end

end Sorting

/-! ## Built-in functions -/

section
open Run (Below)

/-- Every call of one caller lies below the same call of the other. -/
def Caller.Below (call call' : Caller) : Prop := ∀ f args, Run.Below (call f args) (call' f args)

variable {room : Room} {call call' : Caller} (hcall : call.Below call')

theorem Sequences.keep_below {test test' : Value → Run Value}
    (htest : ∀ v, Below (test v) (test' v)) (kept vs : List Value) :
    Below (keep test kept vs) (keep test' kept vs) := by
  induction vs generalizing kept with
  | nil => exact .refl _
  | cons v vs ih => exact .bind (htest v) fun _ => .ite (ih (v :: kept)) (ih kept)

theorem Sequences.foldLeft_below {f f' : Value → Value → Run Value}
    (hf : ∀ a v, Below (f a v) (f' a v)) (acc : Value) (vs : List Value) :
    Below (foldLeft f acc vs) (foldLeft f' acc vs) := by
  induction vs generalizing acc with
  | nil => exact .refl _
  | cons v vs ih => exact .bind (hf acc v) fun a => ih a

variable [Host]

include hcall

theorem Sequences.filter_below (u v : Value) :
    Below (filter room call u v) (filter room call' u v) :=
  .bind (.refl _) fun test => .bind (.refl _) fun items =>
    .bind (keep_below (fun x => hcall test [x]) [] items) fun _ => .refl _

theorem Sequences.map_below (u v : Value) (vs : List Value) :
    Below (map room call u v vs) (map room call' u v vs) :=
  .bind (.refl _) fun f => .bind (.refl _) fun cs =>
    .bind (.mapM (hcall f) (rows cs)) fun _ => .refl _

theorem Sequences.reduce_below (u v : Value) (start : Option Value) :
    Below (reduce room call u v start) (reduce room call' u v start) := by
  refine .bind (.refl _) fun f => .bind (.refl _) fun items => ?_
  have hstep : ∀ a x, Below (call f [a, x]) (call' f [a, x]) := fun a x => hcall f [a, x]
  cases start with
  | some a => exact foldLeft_below hstep a items
  | none =>
    cases items with
    | nil => exact hcall f []
    | cons a rest => exact foldLeft_below hstep a rest

omit [Host] in
theorem Sequences.precedes_below (less u v : Value) :
    Below (precedes call less u v) (precedes call' less u v) :=
  .bind (hcall less [u, v]) fun _ => .ite (.refl _)
    (.bind (.map _ (hcall less [v, u])) fun _ => .refl _)

theorem Sequences.sort_below (v : Value) (less : Option Value) :
    Below (sort room call v less) (sort room call' v less) := by
  refine .bind (.refl _) fun items => ?_
  cases less with
  | none => exact .refl _
  | some u =>
    exact .bind (.refl _) fun f =>
      .bind (Sorting.sort_below (precedes_below hcall f) items) fun _ => .refl _

theorem Builtin.spread_below (f : Value) (args : List Value) (last : Value) :
    Below (spread room call f args last) (spread room call' f args last) :=
  .bind (.refl _) fun f => .bind (.refl _) fun _ => .bind (.refl _) fun more =>
    hcall f (args ++ more)

/-- A built-in function can be cut short in its calls only. -/
theorem Builtin.run_below (b : Builtin) (args : List Value) :
    Below (b.run room call args) (b.run room call' args) := by
  cases b
  case apply =>
    match args with
    | [] => exact .refl _
    | [_] => exact .refl _
    | f :: v :: vs => exact spread_below hcall f (v :: vs).dropLast ((v :: vs).getLastD .nil)
  case funcall =>
    match args with
    | [] => exact .refl _
    | f :: args => exact .bind (.refl _) fun f => hcall f args
  case filter =>
    match args with
    | [u, v] => exact Sequences.filter_below hcall u v
    | [] => exact .refl _
    | [_] => exact .refl _
    | _ :: _ :: _ :: _ => exact .refl _
  case map =>
    match args with
    | [] => exact .refl _
    | [_] => exact .refl _
    | u :: v :: vs => exact Sequences.map_below hcall u v vs
  case reduce =>
    match args with
    | [u, v] => exact Sequences.reduce_below hcall u v none
    | [u, v, w] => exact Sequences.reduce_below hcall u v (some w)
    | [] => exact .refl _
    | [_] => exact .refl _
    | _ :: _ :: _ :: _ :: _ => exact .refl _
  case sort =>
    match args with
    | [v] => exact Sequences.sort_below hcall v none
    | [v, u] => exact Sequences.sort_below hcall v (some u)
    | [] => exact .refl _
    | _ :: _ :: _ :: _ => exact .refl _
  -- No other function calls back, so the caller does not occur in it.
  all_goals exact .refl _

end

/-! ## Host code -/

section
open Run (Below)

variable {room : Room} {call call' : FrameRef → Caller}
  (hcall : ∀ env, (call env).Below (call' env))
include hcall

theorem HostCode.callBack_below (env f : Value) (args : List Value) :
    Below (callBack call env f args) (callBack call' env f args) := by
  cases env
  case env r => exact hcall r f args
  all_goals exact .refl _

/-- Code of the host can be cut short in its calls only: it does not see the steps run out. -/
theorem HostCode.run_below {α : Type} (code : HostCode α) (known : List Value) :
    Below (code.run room call known) (code.run room call' known) := by
  induction code generalizing known with
  | answer a => exact .refl _
  | raise s => exact .refl _
  | ask request next ih =>
    simp only [run]
    refine .bind (.refl _) fun outcome => ?_
    rcases outcome with s | vs
    · cases s
      case endless => exact .refl _
      all_goals exact ih _ known
    · exact ih _ (known ++ vs)
  | call env f args next ih =>
    simp only [run]
    refine .bind (.tryCatch (.map _ (callBack_below hcall _ _ _)) rfl) fun outcome => ?_
    rcases outcome with s | v
    · exact ih _ known
    · exact ih _ (known ++ [v])

theorem HostCode.value_below (known : List Value) (code : HostCode Handle) :
    Below (code.value room call known) (code.value room call' known) :=
  .bind (run_below hcall code known) fun _ => .refl _

theorem Run.foundBy_below (owner : Value) (name : String) (code : HostCode Attribute) :
    Below (foundBy room call owner name code) (foundBy room call' owner name code) :=
  .bind (HostCode.run_below hcall code [owner]) fun _ => .refl _

variable [Host]

/-- A function of the host can be cut short in its calls only. -/
theorem Host.callFunction_below (env : FrameRef) (f : HostFunctionRef) (args : List Value) :
    Below (callFunction room call env f args) (callFunction room call' env f args) := by
  unfold callFunction
  cases function f with
  | plain code => exact HostCode.value_below hcall _ _
  | raw code => exact HostCode.value_below hcall _ _

theorem Run.memberOf_below (receiver : Value) (name : String) :
    Below (memberOf room call receiver name) (memberOf room call' receiver name) := by
  unfold memberOf
  split
  all_goals first
    | exact .refl _
    | exact foundBy_below hcall _ _ _

theorem Run.findMember_below (receiver : Value) (name : String) :
    Below (findMember room call receiver name) (findMember room call' receiver name) := by
  have hattribute : Below (attributeOf room call receiver name)
      (attributeOf room call' receiver name) := by
    refine .bind (memberOf_below hcall _ _) fun found => ?_
    cases found with
    | some m => exact .refl _
    | none => exact .ite (.refl _) (memberOf_below hcall _ _)
  unfold findMember
  split
  · exact .refl _
  · exact .bind (.refl _) fun _ => .ite (foundBy_below hcall _ _ _) hattribute
  · exact hattribute

/-- An access to a member can be cut short in the calls of the host only. -/
theorem Run.member_below (receiver : Value) (name : String) (args : List Value) :
    Below (member room call receiver name args) (member room call' receiver name args) := by
  have hcalled : ∀ m, Below (callMember room call args m) (callMember room call' args m) := by
    intro m
    cases m with
    | value v | own m => exact .refl _
    | method owner name => exact HostCode.value_below hcall _ _
  unfold member
  refine .ite (.refl _) (.ite (.refl _) (.bind (.refl _) fun owner => ?_))
  refine .bind (.tryCatch (findMember_below hcall _ _) rfl) fun found => ?_
  split
  · exact .refl _
  · exact .refl _
  · exact .tryCatch (hcalled _) rfl

end

end TemplateLisp
