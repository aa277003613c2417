import Mathlib.Algebra.Order.Ring.Rat
import Mathlib.Data.String.Basic
import TemplateLisp.Host.Sample
import TemplateLisp.Proofs.StableSort
import TemplateLisp.Proofs.Keys

/-!
# Sorted sequences

`sort` gives a new list of the elements of a sequence, arranged by a function of the program or,
without one, by value. Both ways ask about two elements at a time, and asking the function `<` of
the root answers the same as `sort` does by itself (`Sequences.decides_less`). So the ways agree
where `sort` succeeds without a function: for elements that are all numbers or all texts.
`Sequences.sort_arranges` states that, with all that is said of the result.
-/

namespace TemplateLisp

/-! ## Order by value -/

namespace Number

/-- Numbers are ordered by their places. -/
theorem lt_eq {a b : Number} {x y : Magnitude} (ha : a.magnitude? = some x)
    (hb : b.magnitude? = some y) (hnan : a.isNan = false) (hnan' : b.isNan = false) : a.lt b =
    .ok (x.lt y) := by
  unfold lt
  rw [hnan, hnan', Bool.or_false, Bool.and_false, if_neg Bool.false_ne_true]
  split
  · cases ha
    cases hb
    exact congrArg Except.ok (decide_eq_decide.2 Rat.intCast_lt_intCast.symm)
  · rw [ha, hb]

namespace Magnitude

theorem lt_irrefl (x : Magnitude) : x.lt x = false := by
  cases x <;> simp [lt]

theorem lt_trans {x y z : Magnitude} (h : x.lt y = true) (h' : y.lt z = true) : x.lt z = true := by
  cases x <;> cases y <;> cases z <;> simp_all only [lt, decide_eq_true_eq, Bool.false_eq_true]
  exact h.trans h'

theorem eq_of_not_lt {x y : Magnitude} (h : x.lt y = false) (h' : y.lt x = false) : x = y := by
  cases x <;> cases y <;> simp_all only [lt, decide_eq_false_iff_not, Bool.true_eq_false]
  exact congrArg finite (le_antisymm (not_lt.1 h') (not_lt.1 h))

end Magnitude

end Number

/-- An order that is looked up in a strict total one is a strict weak order. -/
theorem Sorting.WeakOrder.of_key {α κ : Type} {lt : α → α → Bool} {S : α → Prop}
    (before : κ → κ → Bool) (hirrefl : ∀ x, before x x = false)
    (htrans : ∀ {x y z}, before x y = true → before y z = true → before x z = true)
    (htotal : ∀ {x y}, before x y = false → before y x = false → x = y) (key : α → κ)
    (hkey : ∀ {a b}, S a → S b → lt a b = before (key a) (key b)) : WeakOrder lt S where
  irrefl ha := by rw [hkey ha ha, hirrefl]
  trans ha hb hc hab hbc := by
    rw [hkey ha hb] at hab
    rw [hkey hb hc] at hbc
    rw [hkey ha hc]
    exact htrans hab hbc
  tied {a b c} ha hb hc hab hbc := by
    obtain ⟨hlt, hlt'⟩ := tied_eq_true.1 hab
    rw [hkey ha hb] at hlt
    rw [hkey hb ha] at hlt'
    have hsame : key a = key b := htotal hlt hlt'
    rw [tied_eq_true, hkey hb hc, hkey hc hb] at hbc
    rw [tied_eq_true, hkey ha hc, hkey hc ha, hsame]
    exact hbc

/-- A list has only one list of elements. -/
theorem World.ListOf.inj {w : World} {v : Value} {xs ys : List Value} (h : w.ListOf v xs)
    (h' : w.ListOf v ys) : xs = ys := by
  obtain ⟨cells, hspine, rfl⟩ := h
  obtain ⟨cells', hspine', rfl⟩ := h'
  rw [hspine] at hspine'
  cases hspine'
  rfl

namespace Sequences

open Sorting (WeakOrder Arranges)
open Run (Computes)

variable {u v : Value} {xs : List Value} {w : World}

/-- Whether one number or text lies below another; everything else does not. -/
def below (u v : Value) : Bool :=
  match u, v with
  | .num a, .num b =>
    match a.lt b with
    | .ok less => less
    | .error _ => false
  | .str s, .str t => s < t
  | _, _ => false

/-- Both are numbers, or both are texts. -/
def Comparable (u v : Value) : Prop :=
  u.isNumber = true ∧ v.isNumber = true ∨ Builtin.isText u = true ∧ Builtin.isText v = true

/-- The elements are numbers, or they are texts. -/
def AllComparable (xs : List Value) : Prop :=
  (∀ x ∈ xs, x.isNumber = true) ∨ ∀ x ∈ xs, Builtin.isText x = true

/-- There is no not-a-number among the values. -/
def NanFree (xs : List Value) : Prop := ∀ n, .num n ∈ xs → n.isNan = false

/-- The place of a number in the order. -/
def magnitudeOf : Value → Number.Magnitude
  | .num a => a.magnitude?.getD .negativeInfinity
  | _ => .negativeInfinity

/-- The text of a text. -/
def textOf : Value → String
  | .str s => s
  | _ => ""

theorem isNumber_eq_true : u.isNumber = true ↔ ∃ a, u = .num a := by
  cases u <;> simp [Value.isNumber]

theorem isText_eq_true : Builtin.isText u = true ↔ ∃ s, u = .str s := by
  cases u <;> simp [Builtin.isText]

theorem Comparable.symm (h : Comparable u v) : Comparable v u := h.imp And.symm And.symm

theorem Comparable.trans {x : Value} (h : Comparable u v) (h' : Comparable v x) :
    Comparable u x := by
  rcases h with ⟨hu, hv⟩ | ⟨hu, hv⟩ <;> rcases h' with ⟨hv', hx⟩ | ⟨hv', hx⟩
  · exact .inl ⟨hu, hx⟩
  · obtain ⟨a, rfl⟩ := isNumber_eq_true.1 hv
    cases hv'
  · obtain ⟨s, rfl⟩ := isText_eq_true.1 hv
    cases hv'
  · exact .inr ⟨hu, hx⟩

theorem AllComparable.comparable (h : AllComparable xs) (hu : u ∈ xs) (hv : v ∈ xs) :
    Comparable u v :=
  h.imp (fun h => ⟨h u hu, h v hv⟩) fun h => ⟨h u hu, h v hv⟩

/-- Numbers without not-a-number, or texts, are weakly ordered by value. -/
theorem weakOrder_below (h : AllComparable xs) (hnan : NanFree xs) : WeakOrder below (· ∈ xs) := by
  rcases h with h | h
  · have hplace : ∀ x ∈ xs, ∃ a m, x = .num a ∧ a.isNan = false ∧ a.magnitude? = some m := by
      intro x hx
      obtain ⟨a, rfl⟩ := isNumber_eq_true.1 (h x hx)
      obtain ⟨m, hm⟩ := Number.exists_magnitude (hnan a hx)
      exact ⟨a, m, rfl, hnan a hx, hm⟩
    refine .of_key Number.Magnitude.lt Number.Magnitude.lt_irrefl Number.Magnitude.lt_trans
      Number.Magnitude.eq_of_not_lt magnitudeOf fun {u v} hu hv => ?_
    obtain ⟨a, x, rfl, ha, hx⟩ := hplace u hu
    obtain ⟨b, y, rfl, hb, hy⟩ := hplace v hv
    simp [below, magnitudeOf, Number.lt_eq hx hy ha hb, hx, hy]
  · refine .of_key (fun s t => decide (s < t)) (fun s => by simp) (fun hst htu => ?_)
      (fun hst hts => ?_) textOf fun {u v} hu hv => ?_
    · simp only [decide_eq_true_eq] at hst htu ⊢
      exact String.lt_trans hst htu
    · simp only [decide_eq_false_iff_not, not_lt] at hst hts
      exact le_antisymm hts hst
    · obtain ⟨s, rfl⟩ := isText_eq_true.1 (h u hu)
      obtain ⟨t, rfl⟩ := isText_eq_true.1 (h v hv)
      rfl

/-! ## Asking about two elements -/

/-- Without a function, elements are compared by value. -/
theorem run_lessThan (h : Comparable u v) (hu : ∀ a, u = .num a → a.isNan = false)
    (hv : ∀ a, v = .num a → a.isNan = false) (w : World) :
    (lessThan u v).run w = .ok (below u v) w := by
  rcases h with ⟨hunum, hvnum⟩ | ⟨hutext, hvtext⟩
  · obtain ⟨a, rfl⟩ := isNumber_eq_true.1 hunum
    obtain ⟨b, rfl⟩ := isNumber_eq_true.1 hvnum
    obtain ⟨x, hx⟩ := Number.exists_magnitude (hu a rfl)
    obtain ⟨y, hy⟩ := Number.exists_magnitude (hv b rfl)
    simp only [lessThan, below, Number.lt_eq hx hy (hu a rfl) (hv b rfl)]
    rfl
  · obtain ⟨s, rfl⟩ := isText_eq_true.1 hutext
    obtain ⟨t, rfl⟩ := isText_eq_true.1 hvtext
    rfl

/-- Other elements than two numbers or two texts are refused. -/
theorem comparable_of_lessThan {w' : World} {x : Bool} (h : (lessThan u v).run w = .ok x w') :
    Comparable u v := by
  unfold lessThan at h
  split at h
  · exact .inl ⟨rfl, rfl⟩
  · exact .inr ⟨rfl, rfl⟩
  · cases h

/-- The function `<` of the root compares by value as well. -/
theorem run_ordered (h : Comparable u v) (hu : ∀ a, u = .num a → a.isNan = false)
    (hv : ∀ a, v = .num a → a.isNan = false) (w : World) :
    (Comparison.ordered .less u [v]).run w = .ok (.bool (below u v)) w := by
  rcases h with ⟨hunum, hvnum⟩ | ⟨hutext, hvtext⟩
  · obtain ⟨a, rfl⟩ := isNumber_eq_true.1 hunum
    obtain ⟨b, rfl⟩ := isNumber_eq_true.1 hvnum
    obtain ⟨x, hx⟩ := Number.exists_magnitude (hu a rfl)
    obtain ⟨y, hy⟩ := Number.exists_magnitude (hv b rfl)
    simp only [Comparison.ordered, Comparison.checkComparable, Comparison.inOrder,
      Comparison.Order.ofNumbers, below, Number.lt_eq hx hy (hu a rfl) (hv b rfl), pure_bind]
    cases x.lt y <;> rfl
  · obtain ⟨s, rfl⟩ := isText_eq_true.1 hutext
    obtain ⟨t, rfl⟩ := isText_eq_true.1 hvtext
    simp only [Comparison.ordered, Comparison.checkComparable, Comparison.inOrder,
      Comparison.Order.ofTexts, below, pure_bind]
    cases decide (s < t) <;> rfl

/-- Called with two of the elements, the function says by a truth value which of them comes first,
and leaves alone what there is. -/
def Decides (call : Caller) (f : Value) (lt : Value → Value → Bool) (xs : List Value)
    (w : World) : Prop :=
  ∀ w', w.Untouched w' → ∀ u ∈ xs, ∀ v ∈ xs,
    ∃ x w'', (call f [u, v]).run w' = .ok x w'' ∧ x.isTruthy = lt u v ∧ w'.Untouched w''

/-- If the function does not put an element first, asking it once more the other way round changes
nothing. -/
theorem Decides.precedes {call : Caller} {f : Value} {lt : Value → Value → Bool}
    (h : Decides call f lt xs w) (hu : u ∈ xs) (hv : v ∈ xs) :
    Computes w (precedes call f u v) (lt u v) := by
  intro w' hw'
  obtain ⟨x, w₁, hx, htruthy, hw₁⟩ := h w' hw' u hu v hv
  obtain ⟨y, w₂, hy, -, hw₂⟩ := h w₁ (hw'.trans hw₁) v hv u hu
  rw [Sequences.precedes, EStateM.run_bind, hx]
  dsimp only
  rw [htruthy]
  cases lt u v with
  | true => exact ⟨w₁, rfl, hw₁⟩
  | false =>
    refine ⟨w₂, ?_, hw₁.trans hw₂⟩
    show ((Function.const Value PUnit.unit <$> call f [v, u]) >>= fun _ => pure false).run w₁ = _
    rw [map_eq_pure_bind, bind_assoc, EStateM.run_bind, hy]
    rfl

theorem untouched_addMacroTable (w : World) : w.Untouched (w.addMacroTable []).2 where
  macroTables := by
    show w.macroTables.toList <+: (w.macroTables.push []).toList
    rw [Array.toList_push]
    exact List.prefix_append _ _
  cells := List.prefix_rfl
  vectors := List.prefix_rfl
  tuples := List.prefix_rfl
  maps := List.prefix_rfl
  closures := List.prefix_rfl
  frames := List.prefix_rfl
  objects := List.prefix_rfl
  generators := List.prefix_rfl
  memory := rfl
  output := rfl

/-- The function `<` of the root decides the order by value. -/
theorem decides_less [Host] (h : AllComparable xs) (hnan : NanFree xs) {site : Site}
    (hroom : site.room.enter?.isSome = true) (n : Nat) (w : World) :
    Decides (call (n + 1) site) (.builtin .less) below xs w := by
  intro w' _ u hu v hv
  obtain ⟨env, macros, ambient, room⟩ := site
  obtain ⟨inner, hinner⟩ : ∃ inner, room.enter? = some inner := Option.isSome_iff_exists.1 hroom
  have hcompare := run_ordered (h.comparable hu hv) (fun a ha => hnan a (ha ▸ hu))
    (fun a ha => hnan a (ha ▸ hv))
  have happly (macros : MacroTableRef) (w : World) :
      ((evaluator n).apply n false ⟨env, macros, ambient, room⟩ (.builtin .less) [u, v] >>= fun a =>
        pure a.get).run w = .ok (.bool (below u v)) w := by
    simp only [Evaluator.apply, bind_assoc, pure_bind, Answer.get, bind_pure, Evaluator.callBuiltin,
      Site.deeper, hinner]
    rw [Run.orHostFault, Run.run_tryCatch]
    have hrun : (Builtin.run inner
        ((evaluator n).call ⟨env, macros, ambient, inner⟩) .less [u, v]).run w =
          .ok (.bool (below u v)) w := hcompare w
    rw [hrun]
  cases ambient with
  | some table => exact ⟨_, w', happly table w', rfl, .refl w'⟩
  | none => exact ⟨_, _, happly _ _, rfl, untouched_addMacroTable w'⟩

/-! ## Sorting a sequence -/

section
variable {s : Value} {els : List Element} {w₁ : World}

/-- What `sort` does once it has the elements. -/
theorem run_sort [Host] (h : w.contents? s = some els) (room : Room) : ∃ xs w₁,
    w.ShowsAll w₁ els xs ∧
    w.Extends w₁ ∧ ∀ call,
      (Builtin.run room call .sort [s]).run w = (Sorting.sort lessThan xs >>= Run.list).run w₁ ∧
      ∀ f, f.isCallable = true → (Builtin.run room call .sort [s, f]).run w =
        (Sorting.sort (precedes call f) xs >>= Run.list).run w₁ := by
  obtain ⟨xs, w₁, hitems, hshows, hextends⟩ := Run.items_contents h room "sort" 0
  refine ⟨xs, w₁, hshows, hextends, fun call => ⟨?_, fun f hf => ?_⟩⟩
  · show (sort room call s none).run w = _
    rw [sort, EStateM.run_bind, hitems]
  · show (sort room call s (some f)).run w = _
    rw [sort, EStateM.run_bind, hitems]
    simp only [run_function hf, pure_bind]

/-- What has been sorted comes as a new list. -/
theorem computes_list {x : Run (List Value)} {ys : List Value} (hx : Computes w₁ x ys)
    (hw : w.Extends w₁) :
    ∃ v w', (x >>= Run.list).run w₁ = .ok v w' ∧ w.NewList w' v ys ∧ w.Untouched w' := by
  obtain ⟨w₂, hrun, hw₂⟩ := hx w₁ (.refl w₁)
  refine ⟨(w₂.addList ys .nil).1, (w₂.addList ys .nil).2, ?_, ?_,
    (hw.untouched.trans hw₂).trans (w₂.extends_addList ys .nil).untouched⟩
  · rw [EStateM.run_bind, hrun]
    exact Run.run_list ys w₂
  · exact (World.newList_addList w₂ ys (Nat.le_refl _) fun _ _ _ => rfl).since
      (hw.untouched.trans hw₂).keeps.cells

/-- At most one element is sorted already. -/
theorem computes_short {less : Value → Value → Run Bool} {lt : Value → Value → Bool}
    (h : xs.length ≤ 1) :
    Computes w (Sorting.sort less xs) (Sorting.sorted lt xs) := by
  match xs with
  | [] => exact .pure []
  | [x] => exact .pure [x]

theorem arranges_short {lt : Value → Value → Bool} (h : xs.length ≤ 1) :
    Arranges lt (· ∈ xs) xs (Sorting.sorted lt xs) := by
  match xs with
  | [] => exact ⟨.refl _, .nil, fun _ _ => rfl⟩
  | [x] => exact ⟨.refl _, List.pairwise_singleton _ _, fun _ _ => rfl⟩

/-- Without a function, what can be sorted is arranged by value. -/
theorem computes_by_value (h : xs.length ≤ 1 ∨ AllComparable xs) (hnan : NanFree xs) :
    Computes w (Sorting.sort lessThan xs) (Sorting.sorted below xs) := by
  rcases h with hshort | hxs
  · exact computes_short hshort
  · have hless (u v : Value) (hu : u ∈ xs) (hv : v ∈ xs) : Computes w (lessThan u v) (below u v) :=
      fun w' _ => ⟨w', run_lessThan (hxs.comparable hu hv) (fun a ha => hnan a (ha ▸ hu))
        (fun a ha => hnan a (ha ▸ hv)) w', .refl w'⟩
    exact Sorting.computes_sort hless (weakOrder_below hxs hnan) fun _ ha => ha

/-- Asking the function `<` of the root comes to the same. -/
theorem computes_by_less [Host] (h : xs.length ≤ 1 ∨ AllComparable xs)
    (hnan : NanFree xs) {site : Site} (hroom : site.room.enter?.isSome = true) (n : Nat) :
    Computes w (Sorting.sort (precedes (call (n + 1) site) (.builtin .less)) xs)
      (Sorting.sorted below xs) := by
  rcases h with hshort | hxs
  · exact computes_short hshort
  · have hless (u v : Value) (hu : u ∈ xs) (hv : v ∈ xs) :
        Computes w (precedes (call (n + 1) site) (.builtin .less) u v) (below u v) :=
      (decides_less hxs hnan hroom n w).precedes hu hv
    exact Sorting.computes_sort hless (weakOrder_below hxs hnan) fun _ ha => ha

theorem arranges_by_value (h : xs.length ≤ 1 ∨ AllComparable xs) (hnan : NanFree xs) :
    Arranges below (· ∈ xs) xs (Sorting.sorted below xs) :=
  h.elim arranges_short fun hxs => Sorting.sorted_arranges (weakOrder_below hxs hnan) fun _ ha => ha

/-- Nothing else is sorted without a function. -/
theorem allComparable_of_sort {ys : List Value} {w' : World}
    (h : (Sorting.sort lessThan xs).run w = .ok ys w') : xs.length ≤ 1 ∨ AllComparable xs := by
  have hless (u v : Value) (w : World) (x : Bool) (w' : World)
      (h : (lessThan u v).run w = .ok x w') : Comparable u v := comparable_of_lessThan h
  refine (Sorting.alike_of_sort hless Comparable.trans Comparable.symm h).imp_right ?_
  rintro ⟨first, hfirst, hall⟩
  rcases hall first hfirst with ⟨hnumber, -⟩ | ⟨htext, -⟩
  · refine .inl fun x hx => (hall x hx).elim And.left fun hx => ?_
    obtain ⟨a, rfl⟩ := isNumber_eq_true.1 hnumber
    cases hx.2
  · refine .inr fun x hx => (hall x hx).elim (fun hx => ?_) And.left
    obtain ⟨s, rfl⟩ := isText_eq_true.1 htext
    cases hx.2

end

/-- What `sort` gives, for every sequence. First the elements are taken. If the calls of a function
leave alone what there is and decide a strict weak order of the elements, the result is a new list
of them, arranged by the order.

Without a function, and if no element is not-a-number, there is a result if and only if there is at
most one element or all of them are numbers or all of them texts. It is a new list of them, arranged
by value, and the function `<` of the root gives a list of the same elements in the same places.

In none of this the sequence is changed. -/
theorem sort_arranges [Host] {w : World} {s : Value} {els : List Element}
    (h : w.contents? s = some els) (room : Room) : ∃ xs w₁, w.ShowsAll w₁ els xs ∧ w.Extends w₁ ∧
      (∀ call f lt, f.isCallable = true → WeakOrder lt (· ∈ xs) → Decides call f lt xs w₁ →
        ∃ v w' ys, (Builtin.run room call .sort [s, f]).run w = .ok v w' ∧ w.NewList w' v ys ∧
          Arranges lt (· ∈ xs) xs ys ∧ w.Untouched w') ∧
      (NanFree xs → ∀ call,
        ((∃ v w', (Builtin.run room call .sort [s]).run w = .ok v w') ↔
          xs.length ≤ 1 ∨ AllComparable xs) ∧
        ∀ v w', (Builtin.run room call .sort [s]).run w = .ok v w' → ∃ ys, w.NewList w' v ys ∧
          Arranges below (· ∈ xs) xs ys ∧ w.Untouched w' ∧
          ∀ n (site : Site), site.room.enter?.isSome = true → ∃ v' w'',
            (Builtin.run room (TemplateLisp.call (n + 1) site) .sort [s, .builtin .less]).run
              w = .ok v' w'' ∧
              w.NewList w'' v' ys ∧ w.Untouched w'') ∧
      (w.Sound → w.InRange s → ∀ w', w.Untouched w' → w'.contents? s = some els) := by
  obtain ⟨xs, w₁, hshows, hextends, hrun⟩ := run_sort h room
  refine ⟨xs, w₁, hshows, hextends, fun call f lt hf hlt hdecides => ?_, fun hnan call => ?_,
    fun hw hs w' hw' => World.contents?_keeps h hw hs hw'.keeps fun env hv =>
      hw'.frame (show w.InRange (.map (.vars env)) from hv ▸ hs)⟩
  · have hless (u v : Value) (hu : u ∈ xs) (hv : v ∈ xs) :
      Computes w₁ (precedes call f u v) (lt u v) :=
      hdecides.precedes hu hv
    have hsort := Sorting.computes_sort hless hlt fun _ ha => ha
    obtain ⟨v, w', hlist, hnew, hw'⟩ := computes_list hsort hextends
    exact ⟨v, w', _, ((hrun call).2 f hf).trans hlist, hnew,
      Sorting.sorted_arranges hlt fun _ ha => ha, hw'⟩
  · have hsorted (hxs : xs.length ≤ 1 ∨ AllComparable xs) :=
      computes_list (computes_by_value (w := w₁) hxs hnan) hextends
    rw [(hrun call).1]
    have hiff : (∃ v w', (Sorting.sort lessThan xs >>= Run.list).run w₁ = .ok v w') ↔
        xs.length ≤ 1 ∨ AllComparable xs := by
      constructor
      · rintro ⟨v, w', h⟩
        obtain ⟨ys, w₂, hys, -⟩ := Run.bind_eq_ok_iff.1 h
        exact allComparable_of_sort hys
      · intro hxs
        obtain ⟨v, w', hlist, -⟩ := hsorted hxs
        exact ⟨v, w', hlist⟩
    refine ⟨hiff, fun v w' hv => ?_⟩
    have hxs := hiff.1 ⟨v, w', hv⟩
    obtain ⟨v', w'', hlist, hnew, hw''⟩ := hsorted hxs
    obtain ⟨rfl, rfl⟩ := EStateM.Result.ok.inj (hlist.symm.trans hv)
    refine ⟨_, hnew, arranges_by_value hxs hnan, hw'', fun n site hroom => ?_⟩
    obtain ⟨v', w'', hlist, hnew, hw''⟩ :=
      computes_list (computes_by_less hxs hnan hroom n) hextends
    exact ⟨v', w'', ((hrun _).2 _ rfl).trans hlist, hnew, hw''⟩

/-- The double `1.0`. -/
def oneFloat : Value := .num (.float (.finite false 4503599627370496 (-52)))

/-- The vector `[2 1.0 1]`. -/
def tiedNumbers : World := { World.empty with vectors := #[[.int 2, oneFloat, .int 1]] }

open scoped SampleHost in
/-- The equal numbers stay in the order they have in the vector. -/
theorem sort_arranges_ties :
    tiedNumbers.contents? (.vector ⟨0⟩) = some [.value (.int 2), .value oneFloat, .value (.int 1)] ∧
    ∃ v w', (Builtin.run .unbounded (fun _ _ => pure .nil) .sort [.vector ⟨0⟩]).run tiedNumbers =
        .ok v w' ∧ w'.ListOf v [oneFloat, .int 1, .int 2] ∧
      ∃ v' w'', (Builtin.run .unbounded (call 1 ⟨⟨0⟩, ⟨0⟩, none, .unbounded⟩) .sort
          [.vector ⟨0⟩, .builtin .less]).run tiedNumbers = .ok v' w'' ∧
        w''.ListOf v' [oneFloat, .int 1, .int 2] := by
  have hcontents : tiedNumbers.contents? (.vector ⟨0⟩) =
      some [.value (.int 2), .value oneFloat, .value (.int 1)] := rfl
  obtain ⟨xs, w₁, hshows, -, -, hvalue, -⟩ := sort_arranges hcontents .unbounded
  obtain rfl : xs = [.int 2, oneFloat, .int 1] := World.showsAll_values.1 hshows
  have hnan : NanFree [.int 2, oneFloat, .int 1] := by
    intro n hn
    rcases List.mem_cons.1 hn with h | hn
    · cases h
      rfl
    · rcases List.mem_pair.1 hn with h | h <;> cases h <;> rfl
  have hrun : ∃ v w',
    (Builtin.run .unbounded (fun _ _ => pure .nil) .sort [.vector ⟨0⟩]).run tiedNumbers =
      .ok v w' ∧ w'.ListOf v [oneFloat, .int 1, .int 2] := ⟨_, _, rfl, _, rfl, rfl⟩
  obtain ⟨v, w', hrun, hlist⟩ := hrun
  obtain ⟨ys, hnew, -, -, hless⟩ := (hvalue hnan _).2 v w' hrun
  obtain rfl := hnew.1.inj hlist
  obtain ⟨v', w'', hrun', hnew', -⟩ := hless 0 ⟨⟨0⟩, ⟨0⟩, none, .unbounded⟩ rfl
  exact ⟨hcontents, v, w', hrun, hlist, v', w'', hrun', hnew'.1⟩

end Sequences

end TemplateLisp
