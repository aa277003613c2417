import TemplateLisp.Proofs.CallBacks

/-!
# Sorting is stable

The sort of `Sorting` is put together from a run at the front and insertions. With a test that only
looks it is a function of lists (`Sorting.sorted`), and under a strict weak order its result has the
same elements in order, equals in the order they came in: `Sorting.sorted_arranges`. Asking with
effects that leave what there is alone comes to the same (`Sorting.computes_sort`).

Nothing is sorted without each element having been compared with some other
(`Sorting.alike_of_sort`).
-/

namespace TemplateLisp

namespace Sorting

variable {α : Type} {lt : α → α → Bool} {S : α → Prop}

/-! ## Strict weak orders -/

/-- Neither stands before the other. -/
def tied (lt : α → α → Bool) (a b : α) : Bool := !lt a b && !lt b a

/-- The test is a strict weak order of the elements of a kind. -/
structure WeakOrder (lt : α → α → Bool) (S : α → Prop) : Prop where
  irrefl : ∀ {a}, S a → lt a a = false
  trans : ∀ {a b c}, S a → S b → S c → lt a b = true → lt b c = true → lt a c = true
  tied : ∀ {a b c}, S a → S b → S c → tied lt a b = true → tied lt b c = true → tied lt a c = true

theorem tied_eq_true {a b : α} : tied lt a b = true ↔ lt a b = false ∧ lt b a = false := by
  simp [tied]

namespace WeakOrder

variable (h : WeakOrder lt S) {a b c : α} (ha : S a) (hb : S b) (hc : S c)
include h

include ha hb

theorem asymm (hab : lt a b = true) : lt b a = false := by
  refine Bool.eq_false_iff.2 fun hba => ?_
  have haa := h.trans ha hb ha hab hba
  rw [h.irrefl ha] at haa
  cases haa

include hc

/-- What does not stand before something does not stand before anything in front of that. -/
theorem not_lt_trans (hba : lt b a = false) (hcb : lt c b = false) : lt c a = false := by
  refine Bool.eq_false_iff.2 fun hca => ?_
  have hab : lt a b = false := Bool.eq_false_iff.2 fun hab => by
    rw [h.trans hc ha hb hca hab] at hcb
    cases hcb
  have hbc : lt b c = false := Bool.eq_false_iff.2 fun hbc => by
    rw [h.trans hb hc ha hbc hca] at hba
    cases hba
  have hac := h.tied ha hb hc (tied_eq_true.2 ⟨hab, hba⟩) (tied_eq_true.2 ⟨hbc, hcb⟩)
  rw [(tied_eq_true.1 hac).2] at hca
  cases hca

theorem lt_of_lt_of_not_lt (hab : lt a b = true) (hcb : lt c b = false) : lt a c = true := by
  refine Bool.of_not_eq_false fun hac => ?_
  rw [h.not_lt_trans hb hc ha hcb hac] at hab
  cases hab

end WeakOrder

/-! ## Sorted lists -/

/-- No element stands before one in front of it. -/
def Sorted (lt : α → α → Bool) (xs : List α) : Prop := xs.Pairwise fun a b => lt b a = false

/-- The second list has the elements of the first in order, and those tied with one of a kind as
they came. -/
structure Arranges (lt : α → α → Bool) (S : α → Prop) (xs ys : List α) : Prop where
  perm : ys.Perm xs
  sorted : Sorted lt ys
  stable : ∀ c, S c → ys.filter (tied lt c) = xs.filter (tied lt c)

/-- A test that only looks. -/
def asking (lt : α → α → Bool) (a b : α) : Id Bool := pure (lt a b)

/-- The elements in order, where the order is only looked up. -/
def sorted (lt : α → α → Bool) (xs : List α) : List α := (sort (asking lt) xs).run

/-! ### The run at the front -/

/-- An ascending run is taken as it stands. -/
theorem ascend_spec (h : WeakOrder lt S) {last : α} {front xs : List α}
    (hS : ∀ a ∈ last :: front, S a) (hxs : ∀ a ∈ xs, S a)
    (hrun : (last :: front).Pairwise fun a b => lt a b = false) :
    ∃ run rest, (ascend (asking lt) last (last :: front) xs).run = (run, rest) ∧
      run.reverse ++ rest = (last :: front).reverse ++ xs ∧ run.Pairwise fun a b =>
        lt a b = false := by
  induction xs generalizing last front with
  | nil => exact ⟨_, _, rfl, rfl, hrun⟩
  | cons x xs ih =>
    obtain ⟨hx, hxs⟩ := List.forall_mem_cons.1 hxs
    by_cases hlt : lt x last = true
    · exact ⟨last :: front, x :: xs, if_pos hlt, rfl, hrun⟩
    · have hlast := Bool.eq_false_iff.2 hlt
      have hgrown : (x :: last :: front).Pairwise fun a b => lt a b = false := by
        refine hrun.cons (List.forall_mem_cons.2 ⟨hlast, fun b hb => ?_⟩)
        exact h.not_lt_trans (hS b (List.mem_cons_of_mem _ hb)) (hS last List.mem_cons_self) hx
          (List.rel_of_pairwise_cons hrun hb) hlast
      obtain ⟨run, rest, hascend, happend, hsorted⟩ :=
        ih (List.forall_mem_cons.2 ⟨hx, hS⟩) hxs hgrown
      exact ⟨run, rest, (if_neg hlt).trans hascend, by simpa using happend, hsorted⟩

/-- A descending run is taken the other way round. -/
theorem descend_spec (h : WeakOrder lt S) {last : α} {front xs : List α}
    (hS : ∀ a ∈ last :: front, S a) (hxs : ∀ a ∈ xs, S a)
    (hrun : (last :: front).Pairwise fun a b => lt a b = true) :
    ∃ run rest, (descend (asking lt) last (last :: front) xs).run = (run, rest) ∧
      run.reverse ++ rest = (last :: front).reverse ++ xs ∧ run.Pairwise fun a b =>
        lt a b = true := by
  induction xs generalizing last front with
  | nil => exact ⟨_, _, rfl, rfl, hrun⟩
  | cons x xs ih =>
    obtain ⟨hx, hxs⟩ := List.forall_mem_cons.1 hxs
    by_cases hlt : lt x last = true
    · have hgrown : (x :: last :: front).Pairwise fun a b => lt a b = true := by
        refine hrun.cons (List.forall_mem_cons.2 ⟨hlt, fun b hb => ?_⟩)
        exact h.trans hx (hS last List.mem_cons_self) (hS b (List.mem_cons_of_mem _ hb)) hlt
          (List.rel_of_pairwise_cons hrun hb)
      obtain ⟨run, rest, hdescend, happend, hsorted⟩ :=
        ih (List.forall_mem_cons.2 ⟨hx, hS⟩) hxs hgrown
      exact ⟨run, rest, (if_pos hlt).trans hdescend, by simpa using happend, hsorted⟩
    · exact ⟨last :: front, x :: xs, if_neg hlt, rfl, hrun⟩

/-- No two elements of a strictly ascending list are tied, so turning it round shows in no class. -/
theorem filter_reverse_of_ascending (h : WeakOrder lt S) {run : List α}
    (hS : ∀ a ∈ run, S a) {c : α} (hc : S c) (hrun : run.Pairwise fun a b => lt a b = true) :
    run.reverse.filter (tied lt c) = run.filter (tied lt c) := by
  rw [List.filter_reverse]
  have hclass := hrun.filter (tied lt c)
  have hmem : ∀ a ∈ run.filter (tied lt c), S a ∧ tied lt c a = true := fun a ha =>
    ⟨hS a (List.mem_filter.1 ha).1, (List.mem_filter.1 ha).2⟩
  match run.filter (tied lt c), hclass, hmem with
  | [], _, _ => rfl
  | [_], _, _ => rfl
  | a :: b :: rest, hclass, hmem =>
    obtain ⟨ha, hca⟩ := hmem a List.mem_cons_self
    obtain ⟨hb, hcb⟩ := hmem b (List.mem_cons_of_mem _ List.mem_cons_self)
    have hac : tied lt a c = true := tied_eq_true.2 (tied_eq_true.1 hca).symm
    have hab := (tied_eq_true.1 (h.tied ha hc hb hac hcb)).1
    rw [List.rel_of_pairwise_cons hclass List.mem_cons_self] at hab
    cases hab

/-- The run at the front is arranged, and the elements behind it stay. -/
theorem leadingRun_spec (h : WeakOrder lt S) {xs : List α} (hS : ∀ a ∈ xs, S a) :
    ∃ run taken rest, (leadingRun (asking lt) xs).run = (run, rest) ∧ xs = taken ++ rest ∧
      Arranges lt S taken run := by
  match xs with
  | [] => exact ⟨[], [], [], rfl, rfl, .refl _, .nil, fun _ _ => rfl⟩
  | [x] => exact ⟨[x], [x], [], rfl, rfl, .refl _, List.pairwise_singleton _ _, fun _ _ => rfl⟩
  | x :: y :: xs =>
    obtain ⟨hx, hy, hxs⟩ : S x ∧ S y ∧ ∀ a ∈ xs, S a := by simpa using hS
    have hfront : ∀ a ∈ [y, x], S a := by simp [hx, hy]
    by_cases hlt : lt y x = true
    · obtain ⟨run, rest, hdescend, happend, hrun⟩ :=
        descend_spec h hfront hxs (List.pairwise_pair.2 hlt)
      have hrunS : ∀ a ∈ run, S a := fun a ha => hS a (by
        have hall : a ∈ run.reverse ++ rest := List.mem_append_left _ (List.mem_reverse.2 ha)
        simpa [happend] using hall)
      refine ⟨run, run.reverse, rest, (if_pos hlt).trans hdescend, happend.symm,
        run.reverse_perm.symm,
        hrun.imp_of_mem fun ha hb hab => h.asymm (hrunS _ ha) (hrunS _ hb) hab, fun c hc => ?_⟩
      exact (filter_reverse_of_ascending h hrunS hc hrun).symm
    · obtain ⟨run, rest, hascend, happend, hrun⟩ :=
        ascend_spec h hfront hxs (List.pairwise_pair.2 (Bool.eq_false_iff.2 hlt))
      refine ⟨run.reverse, run.reverse, rest, (if_neg hlt).trans ?_, happend.symm, .refl _,
        List.pairwise_reverse.2 hrun, fun _ _ => rfl⟩
      show (fun p : List α × List α => (p.1.reverse, p.2)) (ascend (asking lt) y [y, x] xs).run = _
      rw [hascend]

/-! ### Insertions -/

/-- Inserting looks at the element in the middle and goes on in one half. -/
theorem insertWithin_asking (x : α) (fuel : Nat) (xs : List α) :
    (insertWithin (asking lt) x (fuel + 1) xs).run = match xs.drop (xs.length / 2) with
      | [] => [x]
      | p :: after => if lt x p then
          (insertWithin (asking lt) x fuel (xs.take (xs.length / 2))).run ++ p :: after
        else xs.take (xs.length / 2) ++ p :: (insertWithin (asking lt) x fuel after).run := by
  rw [insertWithin]
  cases xs.drop (xs.length / 2) with
  | nil => rfl
  | cons p after => cases hp : lt x p <;> simp only [asking, hp] <;> rfl

/-- An element is put behind all that it does not stand before. -/
theorem insertWithin_spec (h : WeakOrder lt S) {x : α} (hx : S x) {fuel : Nat} {xs : List α}
    (hfuel : xs.length ≤ fuel) (hS : ∀ a ∈ xs, S a) (hxs : Sorted lt xs) :
    ∃ before after, xs = before ++ after ∧
      (insertWithin (asking lt) x fuel xs).run = before ++ x :: after ∧
      (∀ b ∈ before, lt x b = false) ∧ ∀ a ∈ after, lt x a = true := by
  induction fuel generalizing xs with
  | zero =>
    obtain rfl : xs = [] := List.length_eq_zero_iff.1 (Nat.le_zero.1 hfuel)
    exact ⟨[], [], rfl, rfl, nofun, nofun⟩
  | succ n ih =>
    have hsplit : xs.take (xs.length / 2) ++ xs.drop (xs.length / 2) = xs :=
      List.take_append_drop _ _
    have hhalf : (xs.take (xs.length / 2)).length ≤ xs.length / 2 := List.length_take_le _ _
    have hrest : (xs.drop (xs.length / 2)).length = xs.length - xs.length / 2 := List.length_drop
    rw [insertWithin_asking]
    cases hdrop : xs.drop (xs.length / 2) with
    | nil =>
      rw [hdrop, List.length_nil] at hrest
      obtain rfl : xs = [] := List.length_eq_zero_iff.1 (by omega)
      exact ⟨[], [], rfl, rfl, nofun, nofun⟩
    | cons p after =>
      rw [hdrop] at hsplit hrest
      rw [List.length_cons] at hrest
      rw [← hsplit] at hS hxs
      obtain ⟨hfrontS, hpS, hafterS⟩ :
          (∀ a ∈ xs.take (xs.length / 2), S a) ∧ S p ∧ ∀ a ∈ after, S a := by
        simpa [or_imp, forall_and] using hS
      obtain ⟨hfront, hafter, hcross⟩ := List.pairwise_append.1 hxs
      obtain ⟨hp, hafter⟩ := List.pairwise_cons.1 hafter
      dsimp only
      by_cases hlt : lt x p = true
      · rw [if_pos hlt]
        obtain ⟨before, behind, heq, hrun, hbefore, hbehind⟩ := ih (by omega) hfrontS hfront
        refine ⟨before, behind ++ p :: after, ?_, by rw [hrun]; simp, hbefore, fun a ha => ?_⟩
        · rw [← List.append_assoc, ← heq, hsplit]
        · rcases List.mem_append.1 ha with ha | ha
          · exact hbehind a ha
          · rcases List.mem_cons.1 ha with rfl | ha
            · exact hlt
            · exact h.lt_of_lt_of_not_lt hx hpS (hafterS a ha) hlt (hp a ha)
      · rw [if_neg hlt]
        obtain ⟨before, behind, heq, hrun, hbefore, hbehind⟩ := ih (by omega) hafterS hafter
        refine ⟨xs.take (xs.length / 2) ++ p :: before, behind, ?_, by rw [hrun]; simp,
          fun b hb => ?_,
          hbehind⟩
        · rw [List.append_assoc, List.cons_append, ← heq, hsplit]
        · rcases List.mem_append.1 hb with hb | hb
          · exact h.not_lt_trans (hfrontS b hb) hpS hx (hcross b hb p List.mem_cons_self)
              (Bool.eq_false_iff.2 hlt)
          · rcases List.mem_cons.1 hb with rfl | hb
            · exact Bool.eq_false_iff.2 hlt
            · exact hbefore b hb

/-- Inserting the next element keeps what is sorted arranged. -/
theorem Arranges.insert (h : WeakOrder lt S) {xs ys : List α} (hxs : Arranges lt S xs ys) {x : α}
    (hS : ∀ a ∈ xs, S a) (hx : S x) : Arranges lt S (xs ++ [x]) (insert (asking lt) x ys).run := by
  have hysS : ∀ a ∈ ys, S a := fun a ha => hS a (hxs.perm.mem_iff.1 ha)
  obtain ⟨before, after, rfl, hrun, hbefore, hafter⟩ :=
    insertWithin_spec h hx (Nat.le_refl _) hysS hxs.sorted
  have hinsert : (Sorting.insert (asking lt) x (before ++ after)).run = before ++ x :: after := hrun
  have hafterS : ∀ a ∈ after, S a := fun a ha => hysS a (List.mem_append_right _ ha)
  rw [hinsert]
  constructor
  · calc before ++ x :: after
      List.Perm _ (x :: (before ++ after)) := List.perm_middle
      List.Perm _ (x :: xs) := hxs.perm.cons x
      List.Perm _ (xs ++ [x]) := (List.perm_append_singleton x xs).symm
  · obtain ⟨hfront, hback, hcross⟩ := List.pairwise_append.1 hxs.sorted
    refine List.pairwise_append.2 ⟨hfront, hback.cons fun a ha => ?_, fun b hb => ?_⟩
    · exact h.asymm hx (hafterS a ha) (hafter a ha)
    · exact List.forall_mem_cons.2 ⟨hbefore b hb, hcross b hb⟩
  · intro c hc
    rw [List.filter_append, List.filter_cons, List.filter_append xs, ← hxs.stable c hc,
      List.filter_append]
    by_cases hcx : tied lt c x = true
    · -- Whatever else is tied with the new element stands in front of it.
      have hnone : after.filter (tied lt c) = [] := List.filter_eq_nil_iff.2 fun a ha hca => by
        have hxc : tied lt x c = true := tied_eq_true.2 (tied_eq_true.1 hcx).symm
        have hxa := (tied_eq_true.1 (h.tied hx hc (hafterS a ha) hxc hca)).1
        rw [hafter a ha] at hxa
        cases hxa
      simp [hcx, hnone]
    · simp [hcx]

theorem Arranges.insertAll (h : WeakOrder lt S) {xs ys : List α} (hxs : Arranges lt S xs ys)
    {rest : List α} (hS : ∀ a ∈ xs, S a) (hrest : ∀ a ∈ rest, S a) :
    Arranges lt S (xs ++ rest) (insertAll (asking lt) ys rest).run := by
  induction rest generalizing xs ys with
  | nil =>
    rw [List.append_nil]
    exact hxs
  | cons x rest ih =>
    obtain ⟨hx, hrest⟩ := List.forall_mem_cons.1 hrest
    have hstep := ih (hxs.insert h hS hx) (List.forall_mem_append.2 ⟨hS, by simpa using hx⟩) hrest
    rwa [List.append_assoc] at hstep

theorem sorted_of_leadingRun {xs run rest : List α} (h : (leadingRun (asking lt) xs).run =
    (run, rest)) :
    sorted lt xs = (insertAll (asking lt) run rest).run := by
  show (fun p : List α × List α => (insertAll (asking lt) p.1 p.2).run)
    (leadingRun (asking lt) xs).run = _
  rw [h]

/-- Sorting arranges the elements. -/
theorem sorted_arranges (h : WeakOrder lt S) {xs : List α} (hS : ∀ a ∈ xs, S a) :
    Arranges lt S xs (sorted lt xs) := by
  obtain ⟨run, taken, rest, hrun, rfl, htaken⟩ := leadingRun_spec h hS
  obtain ⟨htakenS, hrestS⟩ := List.forall_mem_append.1 hS
  rw [sorted_of_leadingRun hrun]
  exact htaken.insertAll h htakenS hrestS

end Sorting

/-! ## Effects that leave what there is alone -/

/-- What there was is there as it was: new objects stand behind the old ones, and nothing is
written. -/
structure World.Untouched (w w' : World) : Prop where
  cells : w.cells.toList <+: w'.cells.toList
  vectors : w.vectors.toList <+: w'.vectors.toList
  tuples : w.tuples.toList <+: w'.tuples.toList
  maps : w.maps.toList <+: w'.maps.toList
  closures : w.closures.toList <+: w'.closures.toList
  frames : w.frames.toList <+: w'.frames.toList
  macroTables : w.macroTables.toList <+: w'.macroTables.toList
  objects : w.objects.toList <+: w'.objects.toList
  generators : w.generators.toList <+: w'.generators.toList
  memory : w'.memory = w.memory
  output : w'.output = w.output

namespace World

variable {w w' w'' : World}

@[refl] theorem Untouched.refl (w : World) : w.Untouched w := by
  constructor <;> first | exact List.prefix_rfl | rfl

theorem Untouched.trans (h : w.Untouched w') (h' : w'.Untouched w'') : w.Untouched w'' where
  cells := h.cells.trans h'.cells
  vectors := h.vectors.trans h'.vectors
  tuples := h.tuples.trans h'.tuples
  maps := h.maps.trans h'.maps
  closures := h.closures.trans h'.closures
  frames := h.frames.trans h'.frames
  macroTables := h.macroTables.trans h'.macroTables
  objects := h.objects.trans h'.objects
  generators := h.generators.trans h'.generators
  memory := h'.memory.trans h.memory
  output := h'.output.trans h.output

/-- Arrays agree up to the end of the first if that is a prefix of the second. -/
theorem prefix_iff_getD {β : Type} {a b : Array β} (d : β) : a.toList <+: b.toList ↔
    a.size ≤ b.size ∧ ∀ i, i < a.size → b.getD i d = a.getD i d := by
  have hgetD {arr : Array β} {i : Nat} (hi : i < arr.size) : arr.getD i d = arr[i] := by
    rw [Array.getD_eq_getD_getElem?, Array.getElem?_eq_getElem hi]
    rfl
  rw [List.prefix_iff_getElem]
  simp only [Array.length_toList, Array.getElem_toList]
  constructor
  · rintro ⟨hle, hget⟩
    refine ⟨hle, fun i hi => ?_⟩
    rw [hgetD hi, hgetD (Nat.lt_of_lt_of_le hi hle), hget i hi]
  · rintro ⟨hle, hget⟩
    refine ⟨hle, fun i hi => ?_⟩
    rw [← hgetD hi, ← hgetD (Nat.lt_of_lt_of_le hi hle), hget i hi]

theorem prefix_of_eq {β : Type} {a b : Array β} (h : b = a) : a.toList <+: b.toList :=
    h ▸ List.prefix_rfl

theorem Untouched.keeps (h : w.Untouched w') : w.Keeps w' where
  cells := h.cells.length_le
  vectors := h.vectors.length_le
  tuples := h.tuples.length_le
  maps := h.maps.length_le
  closures := h.closures.length_le
  frames := h.frames.length_le
  cell r := ((prefix_iff_getD _).1 h.cells).2 r.index
  vector r := ((prefix_iff_getD _).1 h.vectors).2 r.index
  tuple r := ((prefix_iff_getD _).1 h.tuples).2 r.index
  entries := ((prefix_iff_getD _).1 h.maps).2

theorem Untouched.frame (h : w.Untouched w') {r : FrameRef} (hr : r.index < w.frames.size) :
    w'.frame r = w.frame r := ((prefix_iff_getD _).1 h.frames).2 r.index hr

theorem Extends.untouched (h : w.Extends w') : w.Untouched w' where
  cells := (prefix_iff_getD _).2 ⟨h.cells, fun i hi => h.cell ⟨i⟩ hi⟩
  vectors := (prefix_iff_getD _).2 ⟨h.vectors, fun i hi => h.vector ⟨i⟩ hi⟩
  maps := (prefix_iff_getD _).2 ⟨h.maps, h.entries⟩
  tuples := prefix_of_eq (congrArg World.tuples h.rest :)
  closures := prefix_of_eq (congrArg World.closures h.rest :)
  frames := prefix_of_eq (congrArg World.frames h.rest :)
  macroTables := prefix_of_eq (congrArg World.macroTables h.rest :)
  objects := prefix_of_eq (congrArg World.objects h.rest :)
  generators := prefix_of_eq (congrArg World.generators h.rest :)
  memory := (congrArg World.memory h.rest :)
  output := (congrArg World.output h.rest :)

end World

/-- As long as what there is in the world is left alone, the run gives the result and leaves it
alone itself. -/
def Run.Computes {α : Type} (w : World) (x : Run α) (a : α) : Prop :=
  ∀ w', w.Untouched w' → ∃ w'', x.run w' = .ok a w'' ∧ w'.Untouched w''

namespace Run.Computes

variable {α β : Type} {w : World}

theorem pure (a : α) : Computes w (Pure.pure a) a := fun w' _ => ⟨w', rfl, .refl w'⟩

theorem bind {x : Run α} {a : α} {f : α → Run β} {b : β} (hx : Computes w x a)
    (hf : Computes w (f a) b) : Computes w (x >>= f) b := by
  intro w' hw'
  obtain ⟨w₁, hrun, hw₁⟩ := hx w' hw'
  obtain ⟨w₂, hrun', hw₂⟩ := hf w₁ (hw'.trans hw₁)
  refine ⟨w₂, ?_, hw₁.trans hw₂⟩
  rw [EStateM.run_bind, hrun]
  exact hrun'

end Run.Computes

namespace Sorting

open Run (Computes)

section
variable {α : Type} {lt : α → α → Bool} {S : α → Prop} {w : World} {less : α → α → Run Bool}
  (hless : ∀ a b, S a → S b → Computes w (less a b) (lt a b))
include hless

theorem computes_ascend {last : α} (hlast : S last) (run : List α) {xs : List α}
    (hxs : ∀ a ∈ xs, S a) :
    Computes w (ascend less last run xs) (ascend (asking lt) last run xs).run := by
  induction xs generalizing last run with
  | nil => exact .pure _
  | cons x xs ih =>
    obtain ⟨hx, hxs⟩ := List.forall_mem_cons.1 hxs
    refine .bind (hless x last hx hlast) ?_
    show Computes w _ (if lt x last = true then (run, x :: xs)
      else (ascend (asking lt) x (x :: run) xs).run)
    split
    · exact .pure _
    · exact ih hx _ hxs

theorem computes_descend {last : α} (hlast : S last) (run : List α) {xs : List α}
    (hxs : ∀ a ∈ xs, S a) :
    Computes w (descend less last run xs) (descend (asking lt) last run xs).run := by
  induction xs generalizing last run with
  | nil => exact .pure _
  | cons x xs ih =>
    obtain ⟨hx, hxs⟩ := List.forall_mem_cons.1 hxs
    refine .bind (hless x last hx hlast) ?_
    show Computes w _ (if lt x last = true then (descend (asking lt) x (x :: run) xs).run
      else (run, x :: xs))
    split
    · exact ih hx _ hxs
    · exact .pure _

theorem computes_leadingRun {xs : List α} (hxs : ∀ a ∈ xs, S a) :
    Computes w (leadingRun less xs) (leadingRun (asking lt) xs).run := by
  match xs with
  | [] => exact .pure _
  | [x] => exact .pure _
  | x :: y :: xs =>
    obtain ⟨hx, hy, hxs⟩ : S x ∧ S y ∧ ∀ a ∈ xs, S a := by simpa using hxs
    refine .bind (hless y x hy hx) ?_
    show Computes w _ (if lt y x = true then (descend (asking lt) y [y, x] xs).run
      else (fun p : List α × List α => (p.1.reverse, p.2)) (ascend (asking lt) y [y, x] xs).run)
    split
    · exact computes_descend hless hy _ hxs
    · exact .bind (computes_ascend hless hy _ hxs) (.pure _)

theorem computes_insertWithin {x : α} (hx : S x) (fuel : Nat) {xs : List α} (hxs : ∀ a ∈ xs, S a) :
    Computes w (insertWithin less x fuel xs) (insertWithin (asking lt) x fuel xs).run := by
  induction fuel generalizing xs with
  | zero => exact .pure _
  | succ n ih =>
    have htake : ∀ a ∈ xs.take (xs.length / 2), S a := fun a ha => hxs a (List.mem_of_mem_take ha)
    have hdrop : ∀ a ∈ xs.drop (xs.length / 2), S a := fun a ha => hxs a (List.mem_of_mem_drop ha)
    rw [insertWithin, insertWithin]
    cases hrest : xs.drop (xs.length / 2) with
    | nil => exact .pure _
    | cons p after =>
      rw [hrest] at hdrop
      obtain ⟨hp, hafter⟩ := List.forall_mem_cons.1 hdrop
      refine .bind (hless x p hx hp) ?_
      show Computes w _ (if lt x p = true then
          (insertWithin (asking lt) x n (xs.take (xs.length / 2))).run ++ p :: after
        else xs.take (xs.length / 2) ++ p :: (insertWithin (asking lt) x n after).run)
      split
      · exact .bind (ih htake) (.pure _)
      · exact .bind (ih hafter) (.pure _)

theorem computes_insertAll (h : WeakOrder lt S) {taken ys xs : List α}
    (hys : Arranges lt S taken ys) (htaken : ∀ a ∈ taken, S a) (hxs : ∀ a ∈ xs, S a) :
    Computes w (insertAll less ys xs) (insertAll (asking lt) ys xs).run := by
  induction xs generalizing taken ys with
  | nil => exact .pure _
  | cons x xs ih =>
    obtain ⟨hx, hxs⟩ := List.forall_mem_cons.1 hxs
    refine .bind (computes_insertWithin hless hx _ fun a ha => htaken a (hys.perm.mem_iff.1 ha)) ?_
    exact ih (hys.insert h htaken hx) (List.forall_mem_append.2 ⟨htaken, by simpa using hx⟩) hxs

/-- Sorting by asking comes to what sorting by looking gives. -/
theorem computes_sort (h : WeakOrder lt S) {xs : List α} (hxs : ∀ a ∈ xs, S a) :
    Computes w (sort less xs) (sorted lt xs) := by
  obtain ⟨run, taken, rest, hrun, rfl, htaken⟩ := leadingRun_spec h hxs
  have hlead := computes_leadingRun hless hxs
  rw [hrun] at hlead
  rw [sorted_of_leadingRun hrun]
  obtain ⟨htakenS, hrestS⟩ := List.forall_mem_append.1 hxs
  exact .bind hlead (computes_insertAll hless h htaken htakenS hrestS)

end

/-! ## Every element is compared -/

section
variable {α : Type} {less : α → α → Run Bool} {alike : α → α → Prop} {first : α} {w w' : World}
  (hless : ∀ a b w x w', (less a b).run w = .ok x w' → alike a b)
  (htrans : ∀ {a b c}, alike a b → alike b c → alike a c)

/-- What the run at the front consists of has been compared, and the rest is left. -/
structure Compares (alike : α → α → Prop) (first : α) (run xs : List α)
    (p : List α × List α) : Prop where
  alike : ∀ a ∈ p.1, alike a first
  taken : ∀ a ∈ run, a ∈ p.1
  left : ∀ a ∈ xs, a ∈ p.1 ∨ a ∈ p.2

/-- If the next element belongs to the run, what holds of the longer run holds of the shorter. -/
theorem Compares.of_cons {x : α} {run xs : List α} {p : List α × List α}
    (h : Compares alike first (x :: run) xs p) : Compares alike first run (x :: xs) p where
  alike := h.alike
  taken a ha := h.taken a (List.mem_cons_of_mem _ ha)
  left := List.forall_mem_cons.2 ⟨.inl (h.taken x List.mem_cons_self), h.left⟩

include hless htrans

theorem compares_ascend {last : α} (hlast : alike last first) {run xs : List α}
    (hrun : ∀ a ∈ run, alike a first) {p : List α × List α}
    (h : (ascend less last run xs).run w = .ok p w') : Compares alike first run xs p := by
  induction xs generalizing last run w with
  | nil =>
    cases h
    exact ⟨hrun, fun _ => id, nofun⟩
  | cons x xs ih =>
    obtain ⟨b, w₁, hb, h⟩ := Run.bind_eq_ok_iff.1 h
    have hx := htrans (hless _ _ _ _ _ hb) hlast
    cases b with
    | true =>
      cases h
      exact ⟨hrun, fun _ => id, fun _ => .inr⟩
    | false => exact .of_cons (ih hx (List.forall_mem_cons.2 ⟨hx, hrun⟩) h)

theorem compares_descend {last : α} (hlast : alike last first) {run xs : List α}
    (hrun : ∀ a ∈ run, alike a first) {p : List α × List α}
    (h : (descend less last run xs).run w = .ok p w') : Compares alike first run xs p := by
  induction xs generalizing last run w with
  | nil =>
    cases h
    exact ⟨hrun, fun _ => id, nofun⟩
  | cons x xs ih =>
    obtain ⟨b, w₁, hb, h⟩ := Run.bind_eq_ok_iff.1 h
    have hx := htrans (hless _ _ _ _ _ hb) hlast
    cases b with
    | true => exact .of_cons (ih hx (List.forall_mem_cons.2 ⟨hx, hrun⟩) h)
    | false =>
      cases h
      exact ⟨hrun, fun _ => id, fun _ => .inr⟩

theorem compares_leadingRun (hsymm : ∀ {a b}, alike a b → alike b a) {second : α} {rest : List α}
    {p : List α × List α} (h : (leadingRun less (first :: second :: rest)).run w = .ok p w') :
    Compares alike first [first] (second :: rest) p := by
  obtain ⟨b, w₁, hb, h⟩ := Run.bind_eq_ok_iff.1 h
  have hsecond := hless _ _ _ _ _ hb
  have hfront : ∀ a ∈ [second, first], alike a first :=
    List.forall_mem_cons.2 ⟨hsecond, by simpa using htrans (hsymm hsecond) hsecond⟩
  cases b with
  | true => exact .of_cons (compares_descend hless htrans hsecond hfront h)
  | false =>
    obtain ⟨q, w₂, hq, h⟩ := Run.bind_eq_ok_iff.1 h
    have hcompares := compares_ascend hless htrans hsecond hfront hq
    cases h
    refine .of_cons ⟨fun a ha => hcompares.alike a (List.mem_reverse.1 ha),
      fun a ha => List.mem_reverse.2 (hcompares.taken a ha), fun a ha => ?_⟩
    exact (hcompares.left a ha).imp_left List.mem_reverse.2

omit hless htrans in
/-- Inserting adds the element and nothing else. -/
theorem mem_insertWithin {x : α} {fuel : Nat} {xs ys : List α}
    (h : (insertWithin less x fuel xs).run w = .ok ys w') : x ∈ ys ∧ ∀ a ∈ ys, a = x ∨ a ∈ xs := by
  induction fuel generalizing xs ys w w' with
  | zero =>
    cases h
    simp
  | succ n ih =>
    have hsplit : xs.take (xs.length / 2) ++ xs.drop (xs.length / 2) = xs :=
      List.take_append_drop _ _
    rw [insertWithin] at h
    cases hdrop : xs.drop (xs.length / 2) with
    | nil =>
      rw [hdrop] at h
      cases h
      simp
    | cons p after =>
      rw [hdrop] at h hsplit
      obtain ⟨b, w₁, -, h⟩ := Run.bind_eq_ok_iff.1 h
      cases b with
      | true =>
        obtain ⟨zs, w₂, hzs, h⟩ := Run.bind_eq_ok_iff.1 h
        cases h
        obtain ⟨hx, hmem⟩ := ih hzs
        refine ⟨List.mem_append_left _ hx, fun a ha => ?_⟩
        rw [← hsplit]
        rcases List.mem_append.1 ha with ha | ha
        · exact (hmem a ha).imp_right (List.mem_append_left _)
        · exact .inr (List.mem_append_right _ ha)
      | false =>
        obtain ⟨zs, w₂, hzs, h⟩ := Run.bind_eq_ok_iff.1 h
        cases h
        obtain ⟨hx, hmem⟩ := ih hzs
        refine ⟨List.mem_append_right _ (List.mem_cons_of_mem _ hx), fun a ha => ?_⟩
        rw [← hsplit]
        rcases List.mem_append.1 ha with ha | ha
        · exact .inr (List.mem_append_left _ ha)
        · rcases List.mem_cons.1 ha with rfl | ha
          · exact .inr (by simp)
          · exact (hmem a ha).imp_right fun ha => by simp [ha]

/-- An element that is inserted among others is compared with one of them. -/
theorem compares_insert {x : α} {xs ys : List α} (hne : xs ≠ []) (hxs : ∀ a ∈ xs, alike a first)
    (h : (insert less x xs).run w = .ok ys w') : alike x first := by
  obtain ⟨n, hn⟩ : ∃ n, xs.length = n + 1 := Nat.exists_eq_succ_of_ne_zero (by simpa using hne)
  rw [insert, hn, insertWithin] at h
  cases hdrop : xs.drop (xs.length / 2) with
  | nil =>
    have := congrArg List.length hdrop
    rw [List.length_drop, List.length_nil] at this
    omega
  | cons p after =>
    rw [hdrop] at h
    obtain ⟨b, w₁, hb, -⟩ := Run.bind_eq_ok_iff.1 h
    have hp : p ∈ xs := List.mem_of_mem_drop (by rw [hdrop]; exact List.mem_cons_self)
    exact htrans (hless _ _ _ _ _ hb) (hxs p hp)

theorem compares_insertAll {xs ys zs : List α} (hne : ys ≠ []) (hys : ∀ a ∈ ys, alike a first)
    (h : (insertAll less ys xs).run w = .ok zs w') : ∀ a ∈ xs, alike a first := by
  induction xs generalizing ys w with
  | nil => exact nofun
  | cons x xs ih =>
    obtain ⟨more, w₁, hmore, h⟩ := Run.bind_eq_ok_iff.1 h
    have hx := compares_insert hless htrans hne hys hmore
    obtain ⟨hmem, hall⟩ := mem_insertWithin hmore
    refine List.forall_mem_cons.2 ⟨hx, ih (List.ne_nil_of_mem hmem) (fun a ha => ?_) h⟩
    rcases hall a ha with rfl | ha
    · exact hx
    · exact hys a ha

/-- If asking about two elements only succeeds for elements that are alike, all elements of what has
been sorted are alike. -/
theorem alike_of_sort (hsymm : ∀ {a b}, alike a b → alike b a) {xs ys : List α}
    (h : (sort less xs).run w = .ok ys w') : xs.length ≤ 1 ∨ ∃ first ∈ xs, ∀ a ∈ xs,
    alike a first := by
  match xs with
  | [] => exact .inl (Nat.zero_le _)
  | [_] => exact .inl (Nat.le_refl _)
  | first :: second :: rest =>
    obtain ⟨p, w₁, hp, h⟩ := Run.bind_eq_ok_iff.1 h
    have hcompares := compares_leadingRun hless htrans hsymm hp
    have hfirst := hcompares.taken first List.mem_cons_self
    have hrest := compares_insertAll hless htrans (List.ne_nil_of_mem hfirst) hcompares.alike h
    refine .inr ⟨first, List.mem_cons_self, List.forall_mem_cons.2 ⟨hcompares.alike _ hfirst, ?_⟩⟩
    exact fun a ha => (hcompares.left a ha).elim (hcompares.alike a) (hrest a)

end

end Sorting

end TemplateLisp
