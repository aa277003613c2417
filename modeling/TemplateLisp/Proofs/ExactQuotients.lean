import Mathlib.Algebra.BigOperators.Group.List.Basic
import Mathlib.Algebra.Ring.Int.Defs
import TemplateLisp.Builtin.Basic
import TemplateLisp.Host.Sample

/-!
# Exact quotients

The quotient of integers is taken one divisor at a time. As long as the divisions are exact it stays
an integer of any size; the first inexact one makes it a double, and no later division makes an
integer of that again. So the whole quotient is an integer exactly if the product of the divisors
divides the first number: `Arithmetic.quotient_of_integers`.
-/

namespace TemplateLisp

namespace Number

/-- An exact quotient is an integer. -/
theorem div_mul_self {b : Int} (hb : b ≠ 0) (q : Int) : div (.int (q * b)) (.int b) =
    .ok (.int q) := by
  rw [div, if_neg (by simpa [isZero] using hb), if_pos (Int.mul_fmod_left q b),
    Int.mul_fdiv_cancel q hb]

/-- An inexact quotient is rounded. -/
theorem div_of_not_dvd {a b : Int} (hb : b ≠ 0) (h : ¬ b ∣ a) :
    div (.int a) (.int b) = divideInts a b := by
  rw [div, if_neg (by simpa [isZero] using hb), if_neg fun hmod => h (Int.dvd_of_fmod_eq_zero hmod)]

theorem div_zero (a : Number) : div a (.int 0) = .error .zeroDivisor := rfl

/-- A number that was rounded is a double. -/
theorem divideInts_ok {a b : Int} {n : Number} (h : divideInts a b = .ok n) : ∃ x, n =
    .float x := by
  unfold divideInts at h
  split at h
  · cases h
  · cases h
    exact ⟨_, rfl⟩

/-- A double that is divided by an integer stays a double. -/
theorem div_double_ok {x : Double} {b : Int} {n : Number} (h : div (.float x) (.int b) = .ok n) :
    ∃ y, n = .float y := by
  rw [div] at h
  split at h
  · cases h
  · cases hdouble : doubleOfInt b with
    | ok y =>
      rw [hdouble] at h
      cases h
      exact ⟨_, rfl⟩
    | error f =>
      rw [hdouble] at h
      cases h

end Number

namespace Arithmetic

/-! ## One step of a fold -/

section
variable {name : String} {op : Number → Number → Except NumberFault Number} {acc x n : Number}

theorem fold_ok (h : op acc x = .ok n) (i : Nat) (vs : List Value) :
    fold name op i acc (.num x :: vs) = fold name op (i + 1) n vs := by
  rw [fold, Argument.number, pure_bind, h]

theorem fold_zeroDivisor (h : op acc x = .error .zeroDivisor) (i : Nat) (vs : List Value) :
    fold name op i acc (.num x :: vs) = Run.fail .divisionByZero := by
  rw [fold, Argument.number, pure_bind, h]

/-- An operation without a result ends the fold. -/
theorem fold_error {f : NumberFault} (h : op acc x = .error f) (i : Nat) (vs : List Value)
    (w w' : World) : (fold name op i acc (.num x :: vs)).run w ≠ .ok n w' := by
  rw [fold, Argument.number, pure_bind, h]
  cases f <;> exact nofun

theorem fold_append (i : Nat) (us vs : List Value) : fold name op i acc (us ++ vs) =
    fold name op i acc us >>= fun acc => fold name op (i + us.length) acc vs := by
  induction us generalizing i acc with
  | nil => simp [fold]
  | cons u us ih =>
    simp only [List.cons_append, fold, bind_assoc]
    refine bind_congr fun x => ?_
    cases op acc x with
    | ok n =>
      dsimp only
      rw [ih, List.length_cons, Nat.add_right_comm, Nat.add_assoc]
    | error f => cases f <;> rfl

end

/-! ## Folding division over integers -/

/-- A product is divided by its factors without a remainder. -/
theorem fold_exact {bs : List Int} (hbs : ∀ b ∈ bs, b ≠ 0) (i : Nat) (q : Int) :
    fold "/" Number.div i (.int (q * bs.prod)) (bs.map .int) = pure (.int q) := by
  induction bs generalizing i with
  | nil => simp [fold]
  | cons b bs ih =>
    obtain ⟨hb, hbs⟩ := List.forall_mem_cons.1 hbs
    have hfirst : q * (b :: bs).prod = q * bs.prod * b := by
      rw [List.prod_cons, Int.mul_comm b, Int.mul_assoc]
    rw [hfirst, List.map_cons, Value.int, fold_ok (Number.div_mul_self hb _), ih hbs]

/-- Integers do not lead from a double back to an integer. -/
theorem fold_double {bs : List Int} {i : Nat} {x : Double} {n : Number} {w w' : World}
    (h : (fold "/" Number.div i (.float x) (bs.map .int)).run w = .ok n w') : ∃ y, n =
    .float y := by
  induction bs generalizing i x with
  | nil =>
    cases h
    exact ⟨x, rfl⟩
  | cons b bs ih =>
    rw [List.map_cons, Value.int] at h
    cases hdiv : Number.div (.float x) (.int b) with
    | ok m =>
      obtain ⟨y, rfl⟩ := Number.div_double_ok hdiv
      rw [fold_ok hdiv] at h
      exact ih h
    | error f => exact absurd h (fold_error hdiv i _ w w')

/-- Where the product of the divisors does not divide the number, some division is inexact. -/
theorem fold_inexact {bs : List Int} (hbs : ∀ b ∈ bs, b ≠ 0) {i : Nat} {a : Int} {n : Number}
    {w w' : World} (ha : ¬ bs.prod ∣ a)
    (h : (fold "/" Number.div i (.int a) (bs.map .int)).run w = .ok n w') : ∃ y, n = .float y := by
  induction bs generalizing i a with
  | nil => exact absurd (Int.one_dvd a) ha
  | cons b bs ih =>
    obtain ⟨hb, hbs⟩ := List.forall_mem_cons.1 hbs
    rw [List.map_cons, Value.int] at h
    by_cases hdvd : b ∣ a
    · obtain ⟨q, rfl⟩ := hdvd
      rw [Int.mul_comm, fold_ok (Number.div_mul_self hb q)] at h
      refine ih hbs (fun hq => ha ?_) h
      rw [List.prod_cons]
      exact Int.mul_dvd_mul_left b hq
    · have hdiv := Number.div_of_not_dvd hb hdvd
      cases hrounded : Number.divideInts a b with
      | ok m =>
        obtain ⟨y, rfl⟩ := Number.divideInts_ok hrounded
        rw [fold_ok (hdiv.trans hrounded)] at h
        exact fold_double h
      | error f => exact absurd h (fold_error (hdiv.trans hrounded) i _ w w')

/-- A fold over integers does nothing but compute. -/
theorem fold_unchanged {op : Number → Number → Except NumberFault Number} {name : String}
    {bs : List Int} {i : Nat} {acc n : Number} {w w' : World}
    (h : (fold name op i acc (bs.map .int)).run w = .ok n w') : w' = w := by
  induction bs generalizing i acc with
  | nil =>
    cases h
    rfl
  | cons b bs ih =>
    rw [List.map_cons, Value.int] at h
    cases hop : op acc (.int b) with
    | ok m =>
      rw [fold_ok hop] at h
      exact ih h
    | error f => exact absurd h (fold_error hop i _ w w')

/-! ## The built-in function -/

section
variable {room : Room} {call : Caller} {w w' : World} {a : Int} {bs : List Int}

/-- Only an integer is given out as one. -/
theorem run_number_int {n : Number} {q : Int} (h : (Run.number n).run w = .ok (.int q) w') :
    n = .int q := by
  cases n with
  | int m =>
    cases h
    rfl
  | float x => cases x <;> cases h
  | dec d => cases d <;> cases h

variable [Host]

theorem run_quotient (hne : bs ≠ []) : (Builtin.div.run room call ((a :: bs).map .int)).run w =
    (fold "/" Number.div 1 (.int a) (bs.map .int) >>= Run.number).run w := by
  obtain ⟨b, bs, rfl⟩ := List.exists_cons_of_ne_nil hne
  rfl

/-- Without a zero among the divisors, the quotient is an integer if and only if it is exact. -/
theorem run_quotient_int_iff (hne : bs ≠ []) (hbs : ∀ b ∈ bs, b ≠ 0) {q : Int} :
    (Builtin.div.run room call ((a :: bs).map .int)).run w = .ok (.int q) w' ↔
      q * bs.prod = a ∧ w' = w := by
  have hexact {p : Int} (hp : p * bs.prod = a) :
      (Builtin.div.run room call ((a :: bs).map .int)).run w = .ok (.int p) w := by
    rw [run_quotient hne, ← hp, fold_exact hbs, pure_bind]
    rfl
  constructor
  · intro h
    by_cases hdvd : bs.prod ∣ a
    · obtain ⟨p, hp⟩ := hdvd
      have hp : p * bs.prod = a := by rw [hp, Int.mul_comm]
      rw [hexact hp] at h
      cases h
      exact ⟨hp, rfl⟩
    · rw [run_quotient hne, EStateM.run_bind] at h
      cases hfold : (fold "/" Number.div 1 (.int a) (bs.map .int)).run w with
      | ok n w₁ =>
        rw [hfold] at h
        obtain ⟨x, rfl⟩ := fold_inexact hbs hdvd hfold
        cases run_number_int h
      | error s w₁ =>
        rw [hfold] at h
        cases h
  · rintro ⟨hq, rfl⟩
    exact hexact hq

/-- At a zero the quotient stops, if it comes that far. -/
theorem run_quotient_zero {before behind : List Int} (hbefore : before = [] ∨
      ∃ v w', (Builtin.div.run room call ((a :: before).map .int)).run w = .ok v w') :
    (Builtin.div.run room call ((a :: (before ++ 0 :: behind)).map .int)).run w =
      .error (.ofFault .divisionByZero) w := by
  have hzero (n : Number) (i : Nat) : fold "/" Number.div i n ((0 :: behind).map .int) =
      Run.fail .divisionByZero := fold_zeroDivisor (Number.div_zero n) i _
  rw [run_quotient (by simp), List.map_append, fold_append, EStateM.run_bind, EStateM.run_bind]
  by_cases hempty : before = []
  · subst hempty
    rw [← EStateM.run_bind, ← EStateM.run_bind, List.map_nil, fold, pure_bind, hzero]
    rfl
  · obtain ⟨v, w', hrun⟩ := hbefore.resolve_left hempty
    rw [run_quotient hempty, EStateM.run_bind] at hrun
    cases hquotient : (fold "/" Number.div 1 (.int a) (before.map .int)).run w with
    | ok n w₁ =>
      obtain rfl := fold_unchanged hquotient
      dsimp only
      rw [hzero]
      rfl
    | error s w₁ =>
      rw [hquotient] at hrun
      cases hrun

end

/-- The quotient of integers. Without a zero among the divisors it is an integer exactly if their
product divides the first number, and then it is the exact one; nothing else happens. With a zero it
is an error, if there is a quotient by the divisors in front of the zero. -/
theorem quotient_of_integers [Host] (room : Room) (call : Caller) (w : World) (a : Int)
    (bs : List Int) (hne : bs ≠ []) :
    ((∀ b ∈ bs, b ≠ 0) →
      ((∃ q w', (Builtin.div.run room call ((a :: bs).map .int)).run w = .ok (.int q) w') ↔
        bs.prod ∣ a) ∧
      ∀ q w', (Builtin.div.run room call ((a :: bs).map .int)).run w = .ok (.int q) w' ↔
        q * bs.prod = a ∧ w' = w) ∧
    ∀ before behind, bs = before ++ 0 :: behind →
      (before = [] ∨ ∃ v w', (Builtin.div.run room call ((a :: before).map .int)).run
        w = .ok v w') →
      (Builtin.div.run room call ((a :: bs).map .int)).run w =
        .error (.ofFault .divisionByZero) w := by
  refine ⟨fun hbs => ⟨⟨?_, ?_⟩, fun q w' => run_quotient_int_iff hne hbs⟩, ?_⟩
  · rintro ⟨q, w', h⟩
    exact Dvd.intro_left q ((run_quotient_int_iff hne hbs).1 h).1
  · rintro ⟨q, hq⟩
    exact ⟨q, w, (run_quotient_int_iff hne hbs).2 ⟨by rw [hq, Int.mul_comm], rfl⟩⟩
  · rintro before behind rfl hbefore
    exact run_quotient_zero hbefore

open scoped SampleHost in
/-- A number of four hundred digits is divided by four and then by minus three; one divided by three
is no integer, and then it is divided by zero. -/
theorem quotient_of_integers_large :
    (Builtin.div.run .unbounded (fun _ _ => pure .nil)
    ([-(6 * 10 ^ 400), 4, -3].map .int)).run World.empty =
      .ok (.int (5 * 10 ^ 399)) World.empty ∧
    (Builtin.div.run .unbounded (fun _ _ => pure .nil) ([1, 3, 0].map .int)).run World.empty =
      .error (.ofFault .divisionByZero) World.empty := by
  obtain ⟨-, hexact⟩ := (quotient_of_integers .unbounded (fun _ _ => pure .nil) World.empty
    (-(6 * 10 ^ 400)) [4, -3] (by decide)).1 (by decide)
  have hzero :=
    (quotient_of_integers .unbounded (fun _ _ => pure .nil) World.empty 1 [3, 0] (by decide)).2
    [3] [] rfl
  exact ⟨(hexact _ _).2 ⟨by decide +kernel, rfl⟩, hzero (.inr ⟨_, _, rfl⟩)⟩

end Arithmetic

end TemplateLisp
