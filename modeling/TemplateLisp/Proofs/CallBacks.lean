import TemplateLisp.Builtin.Basic
import TemplateLisp.Proofs.Elements
import TemplateLisp.Host.Sample

/-!
# Call-backs on a snapshot

`filter`, `map` and `reduce` take the elements first and call afterwards. So which calls are made
does not depend on what the calls do to the sequences: `Sequences.calls_on_snapshot`. The calls
themselves are arbitrary computations; that they are made one after the other is said by `Called`
and `Stopped`, and for a fold by `Folded` and `FoldStopped`.
-/

namespace TemplateLisp

namespace Run

variable {α β : Type} {x : Run α} {f : α → Run β} {w w' : World}

theorem bind_eq_ok_iff {b : β} : (x >>= f).run w = .ok b w' ↔
    ∃ a w₁, x.run w = .ok a w₁ ∧ (f a).run w₁ = .ok b w' := by
  rw [EStateM.run_bind]
  cases x.run w <;> simp

theorem bind_eq_error_iff {s : Stop} : (x >>= f).run w = .error s w' ↔
    x.run w = .error s w' ∨ ∃ a w₁, x.run w = .ok a w₁ ∧ (f a).run w₁ = .error s w' := by
  rw [EStateM.run_bind]
  cases x.run w <;> simp

end Run

namespace Sequences

/-! ## Calls one after the other -/

section
variable (call : List Value → Run Value)

/-- All calls are made, each in the world that the one before has left, with these results. -/
inductive Called : World → List (List Value) → List Value → World → Prop
  | none (w : World) : Called w [] [] w
  | next {w w₁ w₂ : World} {args : List Value} {x : Value} {more : List (List Value)}
    {xs : List Value} : (call args).run w = .ok x w₁ → Called w₁ more xs w₂ →
    Called w (args :: more) (x :: xs) w₂

/-- The calls are made up to one that stops. -/
inductive Stopped : World → List (List Value) → Stop → World → Prop
  | here {w w' : World} {args : List Value} {s : Stop} {more : List (List Value)} :
    (call args).run w = .error s w' → Stopped w (args :: more) s w'
  | later {w w₁ w₂ : World} {args : List Value} {x : Value} {s : Stop} {more : List (List Value)} :
    (call args).run w = .ok x w₁ → Stopped w₁ more s w₂ → Stopped w (args :: more) s w₂

end

section
variable {call : List Value → Run Value} {argss : List (List Value)} {w w' : World}

theorem run_mapM_eq_ok_iff {xs : List Value} :
    (argss.mapM call).run w = .ok xs w' ↔ Called call w argss xs w' := by
  induction argss generalizing w w' xs with
  | nil =>
    refine ⟨fun h => ?_, fun h => ?_⟩
    · cases h
      exact .none _
    · cases h
      rfl
  | cons args more ih =>
    simp only [List.mapM_cons, Run.bind_eq_ok_iff, ih]
    refine ⟨fun h => ?_, fun h => ?_⟩
    · obtain ⟨x, w₁, hcall, ys, w₂, hmore, hxs⟩ := h
      cases hxs
      exact .next hcall hmore
    · cases h with
      | next hcall hmore => exact ⟨_, _, hcall, _, _, hmore, rfl⟩

theorem run_mapM_eq_error_iff {s : Stop} :
    (argss.mapM call).run w = .error s w' ↔ Stopped call w argss s w' := by
  induction argss generalizing w with
  | nil => exact ⟨nofun, nofun⟩
  | cons args more ih =>
    simp only [List.mapM_cons, Run.bind_eq_error_iff, ih]
    refine ⟨fun h => ?_, fun h => ?_⟩
    · rcases h with hcall | ⟨x, w₁, hcall, hmore | ⟨ys, w₂, -, hpure⟩⟩
      · exact .here hcall
      · exact .later hcall hmore
      · cases hpure
    · cases h with
      | here hcall => exact .inl hcall
      | later hcall hmore => exact .inr ⟨_, _, hcall, .inl hmore⟩

end

/-! ## Filtering -/

/-- The values whose results are true. -/
def passed (vs results : List Value) : List Value :=
  ((vs.zip results).filter fun p => p.2.isTruthy).map (·.1)

/-- Whether a value is kept shows only in the list of those that are. -/
theorem keep_eq (test : Value → Run Value) (kept vs : List Value) :
    keep test kept vs = vs.mapM test >>= fun rs => pure (kept.reverse ++ passed vs rs) := by
  induction vs generalizing kept with
  | nil => simp [keep, passed]
  | cons v vs ih =>
    simp only [keep, List.mapM_cons, bind_assoc, pure_bind]
    refine bind_congr fun r => ?_
    by_cases hr : r.isTruthy = true
    · simp [hr, ih, passed]
    · simp [hr, ih, passed]

/-! ## Rows -/

/-- The rows of columns are as many as the shortest of them has elements. -/
theorem rows_eq (c : List Value) (cs : List (List Value)) : ∃ m,
    (∀ d ∈ c :: cs, m ≤ d.length) ∧ (∃ d ∈ c :: cs, d.length = m) ∧
      rows (c :: cs) = (List.range m).map fun i => (c :: cs).map (·.getD i .nil) := by
  induction cs generalizing c with
  | nil =>
    refine ⟨c.length, by simp, by simp, ?_⟩
    refine List.ext_getElem (by simp [rows]) fun i hi _ => ?_
    simp only [rows, List.length_map] at hi
    simp [rows, hi]
  | cons d cs ih =>
    obtain ⟨m, hle, ⟨e, he, rfl⟩, hrows⟩ := ih d
    refine ⟨min c.length e.length,
      List.forall_mem_cons.2 ⟨Nat.min_le_left _ _, fun d' hd' => ?_⟩, ?_, ?_⟩
    · exact Nat.le_trans (Nat.min_le_right _ _) (hle d' hd')
    · rcases Nat.le_total c.length e.length with h | h
      · exact ⟨c, List.mem_cons_self, (Nat.min_eq_left h).symm⟩
      · exact ⟨e, List.mem_cons_of_mem _ he, (Nat.min_eq_right h).symm⟩
    · show List.map _ (c.zip (rows (d :: cs))) = _
      rw [hrows]
      refine List.ext_getElem (by simp) fun i hi _ => ?_
      simp only [List.length_map, List.length_zip, List.length_range] at hi
      have hc : i < c.length := Nat.lt_of_lt_of_le hi (Nat.min_le_left _ _)
      simp [hc]

/-! ## Folding -/

section
variable (step : Value → Value → Run Value)

/-- The values are folded from the left, each step in the world that the one before has left. -/
inductive Folded : World → Value → List Value → Value → World → Prop
  | over (w : World) (acc : Value) : Folded w acc [] acc w
  | step {w w₁ w₂ : World} {acc acc' x v : Value} {more : List Value} :
    (step acc x).run w = .ok acc' w₁ → Folded w₁ acc' more v w₂ → Folded w acc (x :: more) v w₂

/-- The values are folded from the left up to a step that stops. -/
inductive FoldStopped : World → Value → List Value → Stop → World → Prop
  | here {w w' : World} {acc x : Value} {s : Stop} {more : List Value} :
    (step acc x).run w = .error s w' → FoldStopped w acc (x :: more) s w'
  | later {w w₁ w₂ : World} {acc acc' x : Value} {s : Stop} {more : List Value} :
    (step acc x).run w = .ok acc' w₁ → FoldStopped w₁ acc' more s w₂ →
      FoldStopped w acc (x :: more) s w₂

end

section
variable {step : Value → Value → Run Value} {w w' : World} {acc : Value} {xs : List Value}

theorem run_foldLeft_eq_ok_iff {v : Value} :
    (foldLeft step acc xs).run w = .ok v w' ↔ Folded step w acc xs v w' := by
  induction xs generalizing acc w w' with
  | nil =>
    refine ⟨fun h => ?_, fun h => ?_⟩
    · cases h
      exact .over _ _
    · cases h
      rfl
  | cons x xs ih =>
    simp only [foldLeft, Run.bind_eq_ok_iff, ih]
    refine ⟨fun ⟨acc', w₁, hstep, hmore⟩ => .step hstep hmore, fun h => ?_⟩
    cases h with
    | step hstep hmore => exact ⟨_, _, hstep, hmore⟩

theorem run_foldLeft_eq_error_iff {s : Stop} :
    (foldLeft step acc xs).run w = .error s w' ↔ FoldStopped step w acc xs s w' := by
  induction xs generalizing acc w with
  | nil => exact ⟨nofun, nofun⟩
  | cons x xs ih =>
    simp only [foldLeft, Run.bind_eq_error_iff, ih]
    refine ⟨fun h => ?_, fun h => ?_⟩
    · rcases h with hstep | ⟨acc', w₁, hstep, hmore⟩
      · exact .here hstep
      · exact .later hstep hmore
    · cases h with
      | here hstep => exact .inl hstep
      | later hstep hmore => exact .inr ⟨_, _, hstep, hmore⟩

end

/-! ## Snapshots -/

section
variable {w w' : World} {f s : Value} {els : List Element}

/-- The elements of all arguments are taken before anything is called. -/
theorem columns_contents [Host] {ss : List Value} {elss : List (List Element)} (hw : w.Sound)
    (hss : ∀ s ∈ ss, w.InRange s)
    (h : List.Forall₂ (fun s els => w.contents? s = some els) ss elss) (room : Room) (name : String)
    (index : Nat) (hw' : w.Extends w') : ∃ xss w₁,
      (columns room name index ss).run w' = .ok xss w₁ ∧ List.Forall₂ (w.ShowsAll w₁) elss xss ∧
        w'.Extends w₁ := by
  induction h generalizing index w' with
  | nil => exact ⟨[], w', rfl, .nil, .refl w'⟩
  | @cons s els ss elss hels _ ih =>
    obtain ⟨hs, hss⟩ := List.forall_mem_cons.1 hss
    obtain ⟨xs, w₁, hitems, hshows, hextends⟩ :=
      Run.items_contents (World.contents?_extends hels hw hs hw') room name index
    obtain ⟨xss, w₂, hcolumns, hall, hextends'⟩ := ih hss (index + 1) (hw'.trans hextends)
    refine ⟨xs :: xss, w₂, ?_, .cons ?_ hall, hextends.trans hextends'⟩
    · rw [columns, EStateM.run_bind, hitems]
      dsimp only
      rw [EStateM.run_bind, hcolumns]
      rfl
    · exact hshows.imp fun _ _ hx => (hx.since hw'.toKeeps.cells).keeps hextends'.toKeeps

theorem run_function (hf : f.isCallable = true) (name : String) (index : Nat) :
    Argument.function name index f = pure f := if_pos hf

/-- Whatever function is called, `filter` takes the same elements first. -/
theorem filter_contents [Host] (hf : f.isCallable = true) (h : w.contents? s = some els)
    (room : Room) :
    ∃ xs w₁, (Run.items room "filter" 1 s).run w = .ok xs w₁ ∧ w.ShowsAll w₁ els xs ∧ w.Extends w₁ ∧
      ∀ call : Caller,
      (Builtin.run room call .filter [f, s]).run w =
        ((xs.map fun x => [x]).mapM (call f) >>= fun rs =>
        Run.list (passed xs rs)).run w₁ := by
  obtain ⟨xs, w₁, hitems, hshows, hextends⟩ := Run.items_contents h room "filter" 1
  refine ⟨xs, w₁, hitems, hshows, hextends, fun call => ?_⟩
  show (filter room call f s).run w = _
  rw [filter, run_function hf, pure_bind, EStateM.run_bind, hitems]
  simp only [keep_eq, List.mapM_map, bind_assoc, pure_bind, List.reverse_nil, List.nil_append]
  rfl

/-- What `filter` does once it has the elements. -/
theorem run_filter [Host] (hf : f.isCallable = true) (h : w.contents? s = some els) (room : Room)
    (call : Caller) : ∃ xs w₁, w.ShowsAll w₁ els xs ∧ w.Extends w₁ ∧
      (Builtin.run room call .filter [f, s]).run w =
        ((xs.map fun x => [x]).mapM (call f) >>= fun rs =>
        Run.list (passed xs rs)).run w₁ := by
  obtain ⟨xs, w₁, -, hshows, hextends, hrun⟩ := filter_contents hf h room
  exact ⟨xs, w₁, hshows, hextends, hrun call⟩

/-- What `map` does once it has the columns. -/
theorem run_map [Host] {ss : List Value} {elss : List (List Element)} (hf : f.isCallable = true)
    (hw : w.Sound) (hss : ∀ v ∈ s :: ss, w.InRange v)
    (h : List.Forall₂ (fun v els => w.contents? v = some els) (s :: ss) elss) (room : Room)
    (call : Caller) : ∃ xss w₁, List.Forall₂ (w.ShowsAll w₁) elss xss ∧ w.Extends w₁ ∧
      (Builtin.run room call .map (f :: s :: ss)).run w =
        ((rows xss).mapM (call f) >>= Run.list).run w₁ := by
  obtain ⟨xss, w₁, hcolumns, hshows, hextends⟩ := columns_contents hw hss h room "map" 1 (.refl w)
  refine ⟨xss, w₁, hshows, hextends, ?_⟩
  show (map room call f s ss).run w = _
  rw [map, run_function hf, pure_bind, EStateM.run_bind, hcolumns]

/-- Whatever function is called, `reduce` takes the same elements first. -/
theorem reduce_contents [Host] (hf : f.isCallable = true) (h : w.contents? s = some els)
    (room : Room) :
    ∃ xs w₁, (Run.items room "reduce" 1 s).run w = .ok xs w₁ ∧ w.ShowsAll w₁ els xs ∧ w.Extends w₁ ∧
      ∀ call : Caller,
      (∀ init, (Builtin.run room call .reduce [f, s, init]).run w =
        (foldLeft (fun a x => call f [a, x]) init xs).run w₁) ∧
      (Builtin.run room call .reduce [f, s]).run w = match xs with
        | [] => (call f []).run w₁
        | x :: more => (foldLeft (fun a x => call f [a, x]) x more).run w₁ := by
  obtain ⟨xs, w₁, hitems, hshows, hextends⟩ := Run.items_contents h room "reduce" 1
  refine ⟨xs, w₁, hitems, hshows, hextends, fun call => ⟨fun init => ?_, ?_⟩⟩
  · show (reduce room call f s (some init)).run w = _
    rw [reduce, run_function hf, pure_bind, EStateM.run_bind, hitems]
  · show (reduce room call f s none).run w = _
    rw [reduce, run_function hf, pure_bind, EStateM.run_bind, hitems]
    cases xs <;> rfl

/-- What `reduce` does once it has the elements. -/
theorem run_reduce [Host] (hf : f.isCallable = true) (h : w.contents? s = some els) (room : Room)
    (call : Caller) : ∃ xs w₁, w.ShowsAll w₁ els xs ∧ w.Extends w₁ ∧
      (∀ init, (Builtin.run room call .reduce [f, s, init]).run w =
        (foldLeft (fun a x => call f [a, x]) init xs).run w₁) ∧
      (Builtin.run room call .reduce [f, s]).run w = match xs with
        | [] => (call f []).run w₁
        | x :: more => (foldLeft (fun a x => call f [a, x]) x more).run w₁ := by
  obtain ⟨xs, w₁, -, hshows, hextends, hrun⟩ := reduce_contents hf h room
  exact ⟨xs, w₁, hshows, hextends, hrun call⟩

theorem run_list_eq_ok_iff {items : List Value} {v : Value} :
    (Run.list items).run w = .ok v w' ↔
      w.addList items .nil = (v, w') ∧ World.NewList w w' v items := by
  refine ⟨fun h => ?_, fun ⟨h, _⟩ => ?_⟩
  · cases h
    exact ⟨rfl, World.newList_addList w items (Nat.le_refl _) fun _ _ _ => rfl⟩
  · rw [Run.run_list, h]

end

/-- Call-backs are made on a snapshot. Whatever `call` does, in every world and for all sequences:
first the elements are taken, by which the world gets new lists of the keys and values of maps and
nothing else. Then `filter` calls the function on each element, from left to right and once, up to
the first call that stops; if none does, it gives a new list of the elements whose results are true.
`map` does so with the rows of its sequences, down to the end of the shortest, and gives a new list
of the results. `reduce` folds the function over the elements from the left, from its start or else
from the first element; without either it calls the function once without arguments. -/
theorem calls_on_snapshot [Host] {f : Value} (hf : f.isCallable = true) (room : Room)
    (call : Caller) (w : World) :
    (∀ s els, w.contents? s = some els → ∃ xs w₁, w.ShowsAll w₁ els xs ∧ w.Extends w₁ ∧
      (∀ v w', (Builtin.run room call .filter [f, s]).run w = .ok v w' ↔
        ∃ rs w₂, Called (call f) w₁ (xs.map fun x => [x]) rs w₂ ∧
          w₂.addList (passed xs rs) .nil = (v, w') ∧ World.NewList w₂ w' v (passed xs rs)) ∧
      ∀ e w', (Builtin.run room call .filter [f, s]).run w = .error e w' ↔
        Stopped (call f) w₁ (xs.map fun x => [x]) e w') ∧
    (∀ s ss elss, w.Sound → (∀ v ∈ s :: ss, w.InRange v) →
      List.Forall₂ (fun v els => w.contents? v = some els) (s :: ss) elss →
      ∃ xss w₁ m, List.Forall₂ (w.ShowsAll w₁) elss xss ∧ w.Extends w₁ ∧
        (∀ xs ∈ xss, m ≤ xs.length) ∧ (∃ xs ∈ xss, xs.length = m) ∧
        (∀ v w', (Builtin.run room call .map (f :: s :: ss)).run w = .ok v w' ↔
          ∃ rs w₂, Called (call f) w₁ ((List.range m).map fun i => xss.map (·.getD i .nil)) rs w₂ ∧
            w₂.addList rs .nil = (v, w') ∧ World.NewList w₂ w' v rs) ∧
        ∀ e w', (Builtin.run room call .map (f :: s :: ss)).run w = .error e w' ↔
          Stopped (call f) w₁ ((List.range m).map fun i => xss.map (·.getD i .nil)) e w') ∧
    ∀ s els, w.contents? s = some els → ∃ xs w₁, w.ShowsAll w₁ els xs ∧ w.Extends w₁ ∧
      (∀ init v w', (Builtin.run room call .reduce [f, s, init]).run w = .ok v w' ↔
        Folded (fun a x => call f [a, x]) w₁ init xs v w') ∧
      (∀ init e w', (Builtin.run room call .reduce [f, s, init]).run w = .error e w' ↔
        FoldStopped (fun a x => call f [a, x]) w₁ init xs e w') ∧
      match xs with
      | [] => (Builtin.run room call .reduce [f, s]).run w = (call f []).run w₁
      | x :: more =>
        (∀ v w', (Builtin.run room call .reduce [f, s]).run w = .ok v w' ↔
          Folded (fun a x => call f [a, x]) w₁ x more v w') ∧
        ∀ e w', (Builtin.run room call .reduce [f, s]).run w = .error e w' ↔
          FoldStopped (fun a x => call f [a, x]) w₁ x more e w' := by
  refine ⟨fun s els h => ?_, fun s ss elss hw hss h => ?_, fun s els h => ?_⟩
  · obtain ⟨xs, w₁, hshows, hextends, hrun⟩ := run_filter hf h room call
    refine ⟨xs, w₁, hshows, hextends, fun v w' => ?_, fun e w' => ?_⟩
    · rw [hrun, Run.bind_eq_ok_iff]
      simp only [run_mapM_eq_ok_iff, run_list_eq_ok_iff]
    · rw [hrun, Run.bind_eq_error_iff, run_mapM_eq_error_iff]
      exact or_iff_left fun ⟨_, _, _, hlist⟩ => nomatch hlist
  · obtain ⟨xss, w₁, hshows, hextends, hrun⟩ := run_map hf hw hss h room call
    cases xss with
    | nil => cases hshows; cases h
    | cons xs xss =>
      obtain ⟨m, hle, hleast, hrows⟩ := rows_eq xs xss
      refine ⟨xs :: xss, w₁, m, hshows, hextends, hle, hleast, fun v w' => ?_, fun e w' => ?_⟩
      · rw [hrun, ← hrows, Run.bind_eq_ok_iff]
        simp only [run_mapM_eq_ok_iff, run_list_eq_ok_iff]
      · rw [hrun, ← hrows, Run.bind_eq_error_iff, run_mapM_eq_error_iff]
        exact or_iff_left fun ⟨_, _, _, hlist⟩ => nomatch hlist
  · obtain ⟨xs, w₁, hshows, hextends, hstart, hrun⟩ := run_reduce hf h room call
    refine ⟨xs, w₁, hshows, hextends, fun init v w' => ?_, fun init e w' => ?_, ?_⟩
    · rw [hstart, run_foldLeft_eq_ok_iff]
    · rw [hstart, run_foldLeft_eq_error_iff]
    · cases xs with
      | nil => exact hrun
      | cons x more =>
        refine ⟨fun v w' => ?_, fun e w' => ?_⟩
        · rw [hrun]
          exact run_foldLeft_eq_ok_iff
        · rw [hrun]
          exact run_foldLeft_eq_error_iff

/-- The list `(1 2 3)`. -/
def threeNumbers : World :=
  { World.empty with
    cells := #[⟨.int 1, .cell ⟨1⟩, none⟩, ⟨.int 2, .cell ⟨2⟩, none⟩, ⟨.int 3, .nil, none⟩] }

/-- Calls that cut the list off behind its first pair and are true. -/
def cutting : Caller := fun _ _ w => .ok (.bool true) (w.setCdr ⟨0⟩ .nil)

open scoped SampleHost in
/-- All three elements pass although there is only one left. -/
theorem calls_on_snapshot_cutting : threeNumbers.contents? (.cell ⟨0⟩) =
      some [.value (.int 1), .value (.int 2), .value (.int 3)] ∧
    ∃ v w', (Builtin.run .unbounded cutting .filter [.builtin .not, .cell ⟨0⟩]).run threeNumbers =
        .ok v w' ∧ w'.ListOf v [.int 1, .int 2, .int 3] ∧ w'.ListOf (.cell ⟨0⟩) [.int 1] := by
  have hcontents : threeNumbers.contents? (.cell ⟨0⟩) =
      some [.value (.int 1), .value (.int 2), .value (.int 3)] := rfl
  obtain ⟨xs, w₁, hshows, -, hok, -⟩ :=
    (calls_on_snapshot (f := .builtin .not) rfl .unbounded cutting threeNumbers).1 _ _ hcontents
  have hrun : ∃ v w', (Builtin.run .unbounded cutting .filter [.builtin .not, .cell ⟨0⟩]).run
    threeNumbers =
      .ok v w' ∧ w'.ListOf (.cell ⟨0⟩) [.int 1] := ⟨_, _, rfl, _, rfl, rfl⟩
  obtain ⟨v, w', hrun, hcut⟩ := hrun
  obtain ⟨rs, w₂, hcalled, -, hlist, -⟩ := (hok v w').1 hrun
  refine ⟨hcontents, v, w', hrun, ?_, hcut⟩
  obtain rfl : xs = [.int 1, .int 2, .int 3] := World.showsAll_values.1 hshows
  rcases hcalled with _ | ⟨⟨⟩, _ | ⟨⟨⟩, _ | ⟨⟨⟩, ⟨⟩⟩⟩⟩
  exact hlist

end Sequences

end TemplateLisp
