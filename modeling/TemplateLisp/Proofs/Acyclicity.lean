import TemplateLisp.Host.Sample
import TemplateLisp.Proofs.DataKept
import TemplateLisp.Proofs.PlainValues
import TemplateLisp.Proofs.Sessions

/-!
# Data without cycles

Data is acyclic if the way from a value to what it is made of always comes to an end. A new object
is made of values that are there already, and nothing that is there is made of the new object. So as
long as no object gets new contents, data that has no cycles gets none (`Rules.Change.acyclic`), and
this holds in every world that a session comes to and at every point in the middle of a request
(`Session.data_acyclic`).

The variables of a frame are left out of this. They are a map that a program can get hold of, and
binding a variable gives it new contents, so that it can come to hold itself
(`variables_hold_themselves`). Where the way down from a value leads to no such map, it ends
(`World.Acyclic.founded`).

Below a value from which the way down ends (`World.Founded`) nothing is met twice, so the number of
objects bounds how long a list and how deep a value can be (`World.Founded.spine`,
`World.Founded.atMostDeep`). So the bounds on walks through lists, on comparing and on printing are
never reached (`World.Acyclic.walksEnd`).
-/

namespace TemplateLisp

namespace World

variable {w w' : World}

/-- What a pair, vector, fixed sequence or map is made of, be the map the variables of a frame.
Everything else is made of nothing. -/
def components (w : World) : Value → List Value
  | .map (.vars env) => entryValues (w.entries (.vars env))
  | v => w.ownParts v

/-- The second value is the first or somewhere inside of it. -/
def Includes (w : World) : Value → Value → Prop :=
  Relation.ReflTransGen fun v x => x ∈ w.components v

/-- The way from a value to what it is made of, to what that is made of and so on always ends, where
the variables of a frame are made of nothing. -/
def Acyclic (w : World) : Prop := WellFounded fun x v => x ∈ w.ownParts v

/-- From this value the way down always ends; elsewhere in the world there may be cycles. -/
def Founded (w : World) (v : Value) : Prop := Acc (fun x v => x ∈ w.components v) v

/-- No variables of a frame, as a map, are inside of the value. -/
def IsOwn (w : World) (v : Value) : Prop := ∀ env, ¬ w.Includes v (.map (.vars env))

/-- Neither environments nor the variables of a frame are inside of the value. -/
def IsSettled (w : World) (v : Value) : Prop := w.IsOwn v ∧ ∀ env, ¬ w.Includes v (.env env)

theorem components_map (r : MapRef) : w.components (.map r) = entryValues (w.entries r) := by
  cases r <;> rfl

theorem mem_components_key {r : MapRef} {e : Value × Value} (he : e ∈ w.entries r) :
    e.1 ∈ w.components (.map r) := by
  rw [components_map]
  exact mem_entryValues.2 ⟨e, he, .inl rfl⟩

theorem mem_components_value {r : MapRef} {e : Value × Value} (he : e ∈ w.entries r) :
    e.2 ∈ w.components (.map r) := by
  rw [components_map]
  exact mem_entryValues.2 ⟨e, he, .inr rfl⟩

theorem mem_components_car (r : CellRef) : (w.cell r).car ∈ w.components (.cell r) :=
  List.mem_cons_self

theorem mem_components_cdr (r : CellRef) : (w.cell r).cdr ∈ w.components (.cell r) :=
  List.mem_cons_of_mem _ List.mem_cons_self

theorem components_eq_ownParts {v : Value} (h : ∀ env, v ≠ .map (.vars env)) :
    w.components v = w.ownParts v := by
  cases v with
  | map r =>
    cases r with
    | own index => rfl
    | vars env => exact absurd rfl (h env)
  | _ => rfl

theorem Sound.components (h : w.Sound) {v x : Value} (hx : x ∈ w.components v) : w.InRange x := by
  by_cases hv : ∃ env, v = .map (.vars env)
  · obtain ⟨env, rfl⟩ := hv
    exact h.held (.frame env) x (mem_frameValues.2 (.inl hx))
  · rw [components_eq_ownParts fun env he => hv ⟨env, he⟩] at hx
    exact h.ownParts hx

theorem Sound.includes (h : w.Sound) {v x : Value} (hv : w.InRange v) (hx : w.Includes v x) :
    w.InRange x := by
  induction hx with
  | refl => exact hv
  | tail _ hstep _ => exact h.components hstep

/-- Without variables of frames inside, there are no cycles inside. -/
theorem Acyclic.founded (h : w.Acyclic) {v : Value} (hv : w.IsOwn v) : w.Founded v := by
  induction v using h.induction with
  | _ v ih =>
    refine ⟨v, fun x hx => ?_⟩
    have hown : x ∈ w.ownParts v := by
      rw [← components_eq_ownParts fun env he => hv env (he ▸ .refl)]
      exact hx
    exact ih x hown fun env henv => hv env (henv.head hx)

/-! ## No cycle comes about -/

/-- A value that was there is made of what it was made of, so the way down from it still ends. -/
theorem Acyclic.accessible_of_keeps (h : w.Acyclic) (hw : w.Sound) (hkeeps : w.Keeps w') {v : Value}
    (hv : w.InRange v) : Acc (fun x v => x ∈ w'.ownParts v) v := by
  induction v using h.induction with
  | _ v ih =>
    refine ⟨v, fun x hx => ?_⟩
    rw [hkeeps.ownParts hv] at hx
    exact ih x hx (hw.ownParts hx)

end World

namespace Rules.Change

variable {R : Rules} {w w' : World}

theorem ownParts (h : R.Change w w') {v x : Value} (hx : x ∈ w'.ownParts v) :
    x ∈ w.ownParts v ∨ R.Valid w x := by
  rcases World.ownParts_eq_held v with ⟨place, hplace⟩ | hnone
  · rw [hplace] at hx ⊢
    exact h.held hx
  · rw [hnone] at hx
    cases hx

/-- If objects may not get new contents, no cycle comes about: whatever a value is made of after the
change was there before. -/
theorem acyclic (h : R.Change w w') (hmutation : ¬ R.mutation) (hstrict : R.strict) (hw : w.Sound)
    (hacyclic : w.Acyclic) : w'.Acyclic := by
  refine ⟨fun v => ⟨v, fun x hx => hacyclic.accessible_of_keeps hw (h.keeps hmutation) ?_⟩⟩
  rcases h.ownParts hx with hold | hnew
  · exact hw.ownParts hold
  · exact hnew hstrict

end Rules.Change

namespace World

variable {w : World}

/-! ## How far down it goes -/

section
variable {parts : Value → List Value}

theorem not_inside_of_acc {v x : Value} (h : Acc (fun x v => x ∈ parts v) v) (hx : x ∈ parts v) :
    ¬ Relation.ReflTransGen (fun v x => x ∈ parts v) x v := by
  induction h generalizing x with
  | intro v _ ih =>
    intro hback
    rcases hback.cases_head with rfl | ⟨y, hy, hback⟩
    · exact ih x hx hx .refl
    · exact ih x hx hy (hback.tail hx)

variable (parts) in
/-- At most `n` objects of the kind can be met on the way down from the value. -/
def Meets (kind : Value → Prop) (n : Nat) (v : Value) : Prop :=
  ∃ free : List Value, free.length ≤ n ∧
    ∀ x, Relation.ReflTransGen (fun v x => x ∈ parts v) v x → kind x → x ∈ free

/-- Below an object of the kind there is one fewer to meet. -/
theorem Meets.below {kind : Value → Prop} {n : Nat} {v x : Value} (h : Meets parts kind n v)
    (hacc : Acc (fun x v => x ∈ parts v) v) (hv : kind v) (hx : x ∈ parts v) :
    ∃ m, n = m + 1 ∧ Meets parts kind m x := by
  obtain ⟨free, hlength, hfree⟩ := h
  have hmem : v ∈ free := hfree v .refl hv
  have hpos := List.length_pos_of_mem hmem
  refine ⟨n - 1, by omega, free.erase v, ?_, fun y hy hkind => ?_⟩
  · rw [List.length_erase_of_mem hmem]
    omega
  · have hne : y ≠ v := by
      rintro rfl
      exact not_inside_of_acc hacc hx hy
    exact (List.mem_erase_of_ne hne).2 (hfree y (.head hx hy) hkind)

theorem meets_pairs (v : Value) : Meets parts w.IsPair w.cells.size v := by
  refine ⟨w.pairs, by simp [pairs], fun x _ hx => ?_⟩
  cases x with
  | cell r => exact mem_pairs hx
  | _ => exact hx.elim

end

variable (w) in
/-- The value is an object that is made of others. A reference to none reads as an empty one. -/
def IsContainer : Value → Prop
  | .cell r => r.index < w.cells.size
  | .vector r => r.index < w.vectors.size
  | .tuple r => r.index < w.tuples.size
  | .map (.own index) => index < w.maps.size
  | .map (.vars env) => env.index < w.frames.size
  | _ => False

theorem meets_containers (v : Value) : Meets w.components w.IsContainer w.containers v := by
  refine ⟨w.pairs ++ ((List.range w.vectors.size).map (fun i => .vector ⟨i⟩) ++
    ((List.range w.tuples.size).map (fun i => .tuple ⟨i⟩) ++
      ((List.range w.maps.size).map (fun i => .map (.own i)) ++
        (List.range w.frames.size).map fun i => .map (.vars ⟨i⟩)))), ?_, fun x _ hx => ?_⟩
  · simp only [pairs, containers, List.length_append, List.length_map, List.length_range]
    omega
  · simp only [List.mem_append, List.mem_map, List.mem_range]
    cases x with
    | cell r => exact .inl (mem_pairs hx)
    | vector r => exact .inr (.inl ⟨r.index, hx, rfl⟩)
    | tuple r => exact .inr (.inr (.inl ⟨r.index, hx, rfl⟩))
    | map r =>
      cases r with
      | own index => exact .inr (.inr (.inr (.inl ⟨index, hx, rfl⟩)))
      | vars env => exact .inr (.inr (.inr (.inr ⟨env.index, hx, rfl⟩)))
    | _ => exact hx.elim

theorem eq_nil_of_not_isContainer {v x : Value} (hv : ¬ w.IsContainer v)
    (hx : x ∈ w.components v) : x = .nil := by
  cases v with
  | cell r =>
    have hempty : w.components (.cell r) = [.nil, .nil] := by
      show [(w.cell r).car, (w.cell r).cdr] = _
      rw [cell_of_le (Nat.not_lt.1 hv)]
    rw [hempty] at hx
    simpa using hx
  | vector r =>
    have hempty : w.components (.vector r) = [] := getD_of_le (Nat.not_lt.1 hv)
    rw [hempty] at hx
    cases hx
  | tuple r =>
    have hempty : w.components (.tuple r) = [] := getD_of_le (Nat.not_lt.1 hv)
    rw [hempty] at hx
    cases hx
  | map r =>
    have hempty : w.entries r = [] := by
      cases r with
      | own index => exact getD_of_le (Nat.not_lt.1 hv)
      | vars env => exact congrArg Frame.vars (getD_of_le (Nat.not_lt.1 hv))
    rw [components_map, hempty] at hx
    cases hx
  | _ => cases hx

variable (w) in
/-- The way down from the value has at most `n` steps. -/
def AtMostDeep : Nat → Value → Prop
  | 0, v => w.components v = []
  | n + 1, v => ∀ x ∈ w.components v, AtMostDeep n x

instance decidableAtMostDeep : (n : Nat) → DecidablePred (w.AtMostDeep n)
  | 0, v => inferInstanceAs (Decidable (w.components v = []))
  | n + 1, v =>
    have := decidableAtMostDeep n
    inferInstanceAs (Decidable (∀ x ∈ w.components v, w.AtMostDeep n x))

theorem AtMostDeep.succ {n : Nat} {v : Value} (h : w.AtMostDeep n v) : w.AtMostDeep (n + 1) v := by
  induction n generalizing v with
  | zero =>
    intro x hx
    rw [show w.components v = [] from h] at hx
    cases hx
  | succ n ih => exact fun x hx => ih (h x hx)

theorem AtMostDeep.component {n : Nat} {v x : Value} (h : w.AtMostDeep n v)
    (hx : x ∈ w.components v) : ∃ m, n = m + 1 ∧ w.AtMostDeep m x := by
  cases n with
  | zero =>
    rw [show w.components v = [] from h] at hx
    cases hx
  | succ n => exact ⟨n, rfl, h x hx⟩

theorem atMostDeep_nil (n : Nat) : w.AtMostDeep n .nil := by
  induction n with
  | zero => rfl
  | succ n ih => exact ih.succ

/-- The levels of a value are levels on the way down from it. -/
theorem AtMostDeep.founded {n : Nat} {v : Value} (h : w.AtMostDeep n v) : w.Founded v := by
  induction n generalizing v with
  | zero =>
    refine ⟨v, fun x hx => ?_⟩
    obtain ⟨m, hm, -⟩ := h.component hx
    cases hm
  | succ n ih => exact ⟨v, fun x hx => ih (h x hx)⟩

theorem Meets.atMostDeep {n : Nat} {v : Value} (h : Meets w.components w.IsContainer n v)
    (hfounded : w.Founded v) : w.AtMostDeep (n + 1) v := by
  induction hfounded generalizing n with
  | intro v below ih =>
    intro x hx
    by_cases hv : w.IsContainer v
    · obtain ⟨m, rfl, hmeets⟩ := h.below ⟨v, below⟩ hv hx
      exact ih x hx hmeets
    · rw [eq_nil_of_not_isContainer hv hx]
      exact atMostDeep_nil n

/-- Nothing is deeper than there are objects. -/
theorem Founded.atMostDeep {v : Value} (h : w.Founded v) : w.AtMostDeep (w.containers + 1) v :=
  (meets_containers v).atMostDeep h

/-! ## Lists -/

theorem Meets.spine {parts : Value → List Value}
    (hcdr : ∀ r, (w.cell r).cdr ∈ parts (.cell r)) {n : Nat} {v : Value}
    (h : Meets parts w.IsPair n v) (hacc : Acc (fun x v => x ∈ parts v) v) :
    ∃ cells tail, w.Spine v cells tail ∧ cells.length ≤ n + 1 := by
  induction hacc generalizing n with
  | intro v below ih =>
    by_cases hv : ∃ r, v = .cell r
    · obtain ⟨r, rfl⟩ := hv
      by_cases hr : r.index < w.cells.size
      · obtain ⟨m, rfl, hmeets⟩ := h.below ⟨_, below⟩ hr (hcdr r)
        obtain ⟨cells, tail, hspine, hlength⟩ := ih _ (hcdr r) hmeets
        refine ⟨w.cell r :: cells, tail, .pair hspine, ?_⟩
        simp only [List.length_cons]
        omega
      · have hnil : (w.cell r).cdr = .nil := by rw [cell_of_le (Nat.not_lt.1 hr)]
        refine ⟨[w.cell r], .nil, .pair ?_, by simp⟩
        rw [hnil]
        exact .stop nofun
    · exact ⟨[], v, .stop fun r hr => hv ⟨r, hr⟩, by simp⟩

/-- Every list comes to an end and is not longer than there are pairs. -/
theorem Founded.spine {v : Value} (h : w.Founded v) :
    ∃ cells tail, w.Spine v cells tail ∧ cells.length ≤ w.cells.size + 1 :=
  (meets_pairs v).spine mem_components_cdr h

theorem Acyclic.spine (h : w.Acyclic) (v : Value) :
    ∃ cells tail, w.Spine v cells tail ∧ cells.length ≤ w.cells.size + 1 :=
  have hcdr (r : CellRef) : (w.cell r).cdr ∈ w.ownParts (.cell r) := mem_components_cdr r
  (meets_pairs v).spine hcdr (h.apply v)

theorem Spine.spineAt {v tail : Value} {cells : List Cell} (h : w.Spine v cells tail) {n : Nat}
    (hn : cells.length < n) (found : List Cell) :
    w.spineAt n found v = some (found.reverse ++ cells, tail) := by
  induction h generalizing n found with
  | @stop v hv =>
    obtain ⟨m, rfl⟩ : ∃ m, n = m + 1 := ⟨n - 1, by omega⟩
    cases v with
    | cell r => exact absurd rfl (hv r)
    | _ => simp [World.spineAt]
  | @pair r cells tail rest ih =>
    simp only [List.length_cons] at hn
    obtain ⟨m, rfl⟩ : ∃ m, n = m + 1 := ⟨n - 1, by omega⟩
    rw [World.spineAt, ih (by omega)]
    simp

theorem Founded.spine? {v : Value} (h : w.Founded v) :
    ∃ cells tail, w.spine? v = some (cells, tail) ∧ w.Spine v cells tail := by
  obtain ⟨cells, tail, hspine, hlength⟩ := h.spine
  exact ⟨cells, tail, hspine.spineAt (by omega) [], hspine⟩

/-- How a walk along a dotted list stops: with a message that shows the list. -/
theorem run_improperList {α : Type} (room : Room) (v : Value) (w : World) :
    (Run.improperList room v : Run α).run w = match w.readableText room v with
      | .ok text => .error (.ofFault (.type (.improperList text))) w
      | .error s => .error s w := by
  rw [Run.improperList, EStateM.run_bind, Run.run_lookOrStop]
  cases w.readableText room v <;> rfl

/-- A walk along a list gives its elements or stops at the end of one that is dotted. -/
theorem Spine.walk [Host] {v tail : Value} {cells : List Cell} (h : w.Spine v cells tail) {n : Nat}
    (hn : cells.length < n) (room : Room) (whole : Value) {behind : Option CellRef}
    (hbehind : w.restOf whole behind = v) (found : List Value) :
    (Cursor.mapAt room pure n found (.list whole behind)).run w =
      if tail = .nil then .ok (found.reverse ++ cells.map (·.car)) w
      else (Run.improperList room whole).run w := by
  induction h generalizing n behind found with
  | @stop v hv =>
    obtain ⟨m, rfl⟩ : ∃ m, n = m + 1 := ⟨n - 1, by omega⟩
    rw [Cursor.mapAt, Cursor.next, bind_assoc, Run.run_look_bind, hbehind]
    cases v with
    | cell r => exact absurd rfl (hv r)
    | nil => simp
    | _ =>
      rw [EStateM.run_bind, run_improperList, if_neg nofun, run_improperList]
      cases w.readableText room whole <;> rfl
  | @pair r cells tail rest ih =>
    simp only [List.length_cons] at hn
    obtain ⟨m, rfl⟩ : ∃ m, n = m + 1 := ⟨n - 1, by omega⟩
    have hstep : (Cursor.mapAt room pure (m + 1) found (.list whole behind)).run w =
        (Cursor.mapAt room pure m ((w.cell r).car :: found) (.list whole (some r))).run w := by
      rw [Cursor.mapAt, Cursor.next, bind_assoc, Run.run_look_bind, hbehind]
      rfl
    rw [hstep, ih (by omega) rfl]
    simp

/-! ## Going down into a value -/

variable (w) in
/-- The second value lies inside of the first. -/
def Inside (v x : Value) : Prop := ∃ y ∈ w.components v, w.Includes y x

theorem AtMostDeep.includes {n : Nat} {v x : Value} (h : w.AtMostDeep n v) (hx : w.Includes v x) :
    w.AtMostDeep n x := by
  induction hx with
  | refl => exact h
  | tail _ hstep ih =>
    obtain ⟨m, rfl, hdeep⟩ := ih.component hstep
    exact hdeep.succ

theorem AtMostDeep.inside {n : Nat} {v x : Value} (h : w.AtMostDeep n v) (hx : w.Inside v x) :
    ∃ m, n = m + 1 ∧ w.AtMostDeep m x := by
  obtain ⟨y, hy, hx⟩ := hx
  obtain ⟨m, rfl, hdeep⟩ := h.component hy
  exact ⟨m, rfl, hdeep.includes hx⟩

theorem Spine.includes {v tail : Value} {cells : List Cell} (h : w.Spine v cells tail) :
    (∀ c ∈ cells, w.Includes v c.car) ∧ w.Includes v tail := by
  induction h with
  | stop => exact ⟨by simp, .refl⟩
  | @pair r cells tail rest ih =>
    refine ⟨fun c hc => ?_, ih.2.head (mem_components_cdr r)⟩
    rcases List.mem_cons.1 hc with rfl | hc
    · exact .single (mem_components_car r)
    · exact (ih.1 c hc).head (mem_components_cdr r)

theorem Spine.inside_cell {r : CellRef} {tail : Value} {cells : List Cell}
    (h : w.Spine (.cell r) cells tail) :
    (∀ c ∈ cells, w.Inside (.cell r) c.car) ∧ w.Inside (.cell r) tail := by
  cases h with
  | stop hv => exact absurd rfl (hv r)
  | pair rest =>
    refine ⟨fun c hc => ?_, _, mem_components_cdr r, rest.includes.2⟩
    rcases List.mem_cons.1 hc with rfl | hc
    · exact ⟨_, mem_components_car r, .refl⟩
    · exact ⟨_, mem_components_cdr r, rest.includes.1 c hc⟩

/-! ## Printing -/

/-- Something comes to an end, and it fails only where an integer has too many digits for a text. -/
def EndsAsText {α : Type} (x : Except Stop α) : Prop :=
  ∀ s, x = .error s → s = .crash .integerTextTooLong

namespace EndsAsText

section
variable {α β : Type}

theorem ok (a : α) : EndsAsText (.ok a) := fun _ h => by cases h

theorem bind {x : Except Stop α} {f : α → Except Stop β} (hx : EndsAsText x)
    (hf : ∀ a, EndsAsText (f a)) : EndsAsText (x >>= f) := by
  intro s hs
  cases x with
  | error t =>
    cases hs
    exact hx s rfl
  | ok a => exact hf a s hs

theorem mapM {f : α → Except Stop β} {as : List α} (hf : ∀ a ∈ as, EndsAsText (f a)) :
    EndsAsText (as.mapM f) := by
  induction as with
  | nil => exact ok _
  | cons a as ih =>
    rw [List.mapM_cons]
    exact bind (hf a List.mem_cons_self) fun _ =>
      bind (ih fun b hb => hf b (List.mem_cons_of_mem a hb)) fun _ => ok _

theorem map {x : Except Stop α} (hx : EndsAsText x) (f : α → β) : EndsAsText (x.map f) := by
  intro s hs
  cases x with
  | error t =>
    cases hs
    exact hx s rfl
  | ok a => cases hs

end

theorem unfoldAtom (w : World) (v : Value) : EndsAsText (w.unfoldAtom v) := by
  cases v with
  | num n =>
    cases n with
    | int n =>
      intro s hs
      rw [World.unfoldAtom] at hs
      split at hs
      · cases hs
      · cases hs
        rfl
    | _ => exact ok _
  | _ => exact ok _

end EndsAsText

/-- One level of printing, from the levels below. -/
theorem Founded.unfoldAt_succ {n : Nat} {v : Value} (h : w.Founded v) (henv : ∀ env, v ≠ .env env)
    (hbelow : ∀ x, w.Inside v x → EndsAsText (w.unfoldAt none n x)) :
    EndsAsText (w.unfoldAt none (n + 1) v) := by
  have hcomponent : ∀ x ∈ w.components v, EndsAsText (w.unfoldAt none n x) :=
    fun x hx => hbelow x ⟨x, hx, .refl⟩
  cases v with
  | cell r =>
    obtain ⟨cells, tail, hspine, hshape⟩ := h.spine?
    simp only [World.unfoldAt, hspine]
    refine .bind (.mapM fun c hc => ?_) fun items => .bind ?_ fun last => .ok _
    · exact .bind (hbelow _ (hshape.inside_cell.1 c hc)) fun _ => .ok _
    · exact hbelow _ hshape.inside_cell.2
  | vector r => exact .bind (.mapM hcomponent) fun _ => .ok _
  | tuple r => exact .bind (.mapM hcomponent) fun _ => .ok _
  | map r =>
    refine .bind (.mapM fun e he => ?_) fun _ => .ok _
    have hkey := hcomponent e.1 (mem_components_key he)
    have hvalue := hcomponent e.2 (mem_components_value he)
    exact .bind hkey fun _ => .bind hvalue fun _ => .ok _
  | env r => exact absurd rfl (henv r)
  | _ =>
    simp only [World.unfoldAt]
    exact .unfoldAtom w _

theorem Inside.includes {v x : Value} (h : w.Inside v x) : w.Includes v x := by
  obtain ⟨y, hy, hx⟩ := h
  exact hx.head hy

/-- As many levels as the value has are enough to print it, if there are no environments inside. -/
theorem AtMostDeep.unfoldAt {n : Nat} {v : Value} (hv : w.AtMostDeep n v)
    (henv : ∀ env, ¬ w.Includes v (.env env)) : EndsAsText (w.unfoldAt none (n + 1) v) := by
  induction n generalizing v with
  | zero =>
    refine hv.founded.unfoldAt_succ (fun env h => henv env (h ▸ .refl)) fun x hx => ?_
    obtain ⟨m, hm, -⟩ := hv.inside hx
    cases hm
  | succ n ih =>
    refine hv.founded.unfoldAt_succ (fun env h => henv env (h ▸ .refl)) fun x hx => ?_
    obtain ⟨m, hm, hdeep⟩ := hv.inside hx
    cases hm
    exact ih hdeep fun env h => henv env (hx.includes.trans h)

/-! ## Comparing -/

/-- A test comes to an end with an answer. -/
def Decides (x : Except Stop Bool) : Prop := ∃ b, x = .ok b

theorem Decides.ok (b : Bool) : Decides (.ok b) := ⟨b, rfl⟩

theorem Decides.and {x y : Except Stop Bool} (hx : Decides x) (hy : Decides y) :
    Decides (do if ← x then y else return false) := by
  obtain ⟨b, rfl⟩ := hx
  cases b with
  | true => exact hy
  | false => exact .ok false

section
variable {test : Value → Value → Except Stop Bool}

theorem decides_allPairs {xs : List Value} (htest : ∀ x ∈ xs, ∀ y, Decides (test x y))
    (ys : List Value) : Decides (allPairs test xs ys) := by
  induction xs generalizing ys with
  | nil => cases ys <;> exact .ok _
  | cons x xs ih =>
    cases ys with
    | nil => exact .ok _
    | cons y ys =>
      exact (htest x List.mem_cons_self y).and
        (ih (fun x' hx' => htest x' (List.mem_cons_of_mem x hx')) ys)

theorem decides_entriesAgree {es : List (Value × Value)}
    (htest : ∀ e ∈ es, ∀ y, Decides (test e.2 y)) (fs : List (Value × Value)) :
    Decides (w.entriesAgree test fs es) := by
  induction es with
  | nil => exact .ok _
  | cons e es ih =>
    obtain ⟨k, v⟩ := e
    rw [entriesAgree]
    split
    · exact .ok _
    · exact (htest (k, v) List.mem_cons_self _).and
        (ih fun e he => htest e (List.mem_cons_of_mem _ he))

/-- Chains are walked no further than the first of them goes. -/
theorem Spine.decides_spinesAgree {a tail : Value} {cells : List Cell} (h : w.Spine a cells tail)
    (htest : ∀ x, w.Includes a x → ∀ y, Decides (test x y)) {n : Nat} (hn : cells.length < n)
    (b : Value) : Decides (w.spinesAgree false test test n a b) := by
  induction h generalizing n b with
  | @stop a ha =>
    obtain ⟨m, rfl⟩ : ∃ m, n = m + 1 := ⟨n - 1, by omega⟩
    rw [spinesAgree]
    · exact htest a .refl b
    · intro r s hr _
      exact ha r hr
  | @pair r cells tail rest ih =>
    simp only [List.length_cons] at hn
    obtain ⟨m, rfl⟩ : ∃ m, n = m + 1 := ⟨n - 1, by omega⟩
    cases b with
    | cell s =>
      refine (htest _ (.single (mem_components_car r)) _).and (ih (fun x hx y => ?_) (by omega) _)
      exact htest x (hx.head (mem_components_cdr r)) y
    | _ => exact htest (.cell r) .refl _

end

theorem sequence?_components {a : Value} {xs : List Value} (h : w.sequence? a = some xs) :
    w.components a = xs := by
  cases a with
  | vector r => cases h; rfl
  | tuple r => cases h; rfl
  | _ => cases h

/-- One level of comparing, from the levels below. Only the first value has to come to an end. -/
theorem Founded.equalAt_succ {n : Nat} {a : Value} (h : w.Founded a)
    (hbelow : ∀ x, w.Inside a x → ∀ y, Decides (w.equalAt n x y)) (b : Value) :
    Decides (w.equalAt (n + 1) a b) := by
  have hcomponent : ∀ x ∈ w.components a, ∀ y, Decides (w.equalAt n x y) :=
    fun x hx => hbelow x ⟨x, hx, .refl⟩
  unfold equalAt
  split
  · exact .ok _
  · split
    · exact .ok _
    · exact .ok _
    · exact .ok _
    · rename_i r s hne
      obtain ⟨cells, tail, hspine, hlength⟩ := h.spine
      cases hspine with
      | stop hr => exact absurd rfl (hr r)
      | @pair _ rest _ hrest =>
        -- the first pair is compared by hand: its own reference lies not inside of it
        refine (hcomponent _ (mem_components_car r) _).and ?_
        refine hrest.decides_spinesAgree (fun x hx => hbelow x ⟨_, mem_components_cdr r, hx⟩) ?_ _
        have hsquare := Nat.le_mul_self w.cells.size
        simp only [List.length_cons] at hlength
        omega
    · rename_i r s hne
      dsimp only
      split
      · exact decides_entriesAgree (fun e he => hcomponent e.2 (mem_components_value he)) _
      · exact .ok _
    · split
      · rename_i xs ys hxs hys
        split
        · refine decides_allPairs (fun x hx => hcomponent x ?_) _
          rwa [sequence?_components hxs]
        · exact .ok _
      · exact .ok _

theorem AtMostDeep.equalAt {n : Nat} {a : Value} (ha : w.AtMostDeep n a) (b : Value) :
    Decides (w.equalAt (n + 1) a b) := by
  induction n generalizing a b with
  | zero =>
    refine ha.founded.equalAt_succ (fun x hx => ?_) b
    obtain ⟨m, hm, -⟩ := ha.inside hx
    cases hm
  | succ n ih =>
    refine ha.founded.equalAt_succ (fun x hx => ?_) b
    obtain ⟨m, hm, hdeep⟩ := ha.inside hx
    cases hm
    exact ih hdeep

/-- With nesting unbounded, comparing a value that the way down ends from comes to an end. -/
theorem Founded.equal {a : Value} (h : w.Founded a) (b : Value) :
    Decides (w.equal .unbounded a b) := h.atMostDeep.equalAt b

/-! ## All walks -/

/-- Walks through data come to an end, with nesting unbounded: no bound on the steps of a walk or on
the depth of data is ever reached. That holds of walks along lists, of comparing where no variables
of a frame are met, and of printing where no environments are met either. -/
structure WalksEnd [Host] (w : World) : Prop where
  proper : ∀ v, ∃ b, w.isProperList? v = some b
  /-- A walk along a list gives the elements, or it stops at the end and shows the list. -/
  list : ∀ v, ∃ cells tail, w.spine? v = some (cells, tail) ∧
    ((Cursor.list v none).toList .unbounded).run w =
      if tail = .nil then .ok (cells.map (·.car)) w else (Run.improperList .unbounded v).run w
  equal : ∀ a b, w.IsOwn a → Decides (w.equal .unbounded a b)
  readable : ∀ v, w.IsSettled v → EndsAsText (w.readableText .unbounded v)
  display : ∀ v, w.IsSettled v → EndsAsText (w.displayText .unbounded v)

theorem Acyclic.walksEnd [Host] (h : w.Acyclic) : w.WalksEnd where
  proper v := by
    obtain ⟨cells, tail, hspine, hlength⟩ := h.spine v
    exact ⟨decide (tail = .nil), by rw [isProperList?, spine?, hspine.spineAt (by omega) []]; rfl⟩
  list v := by
    obtain ⟨cells, tail, hspine, hlength⟩ := h.spine v
    refine ⟨cells, tail, hspine.spineAt (by omega) [], ?_⟩
    exact hspine.walk (by omega : _ < w.cells.size + 2) .unbounded v rfl []
  equal a b ha := (h.founded ha).equal b
  readable v hv := ((h.founded hv.1).atMostDeep.unfoldAt hv.2).map _
  display v hv := ((h.founded hv.1).atMostDeep.unfoldAt hv.2).map _

theorem acyclic_empty : empty.Acyclic := by
  refine ⟨fun v => ⟨v, fun x hx => ?_⟩⟩
  have hleaf (y : Value) : y ∉ empty.ownParts .nil := by
    intro hy
    cases hy
  have hnil : x = .nil := by
    cases v with
    | cell r => rcases List.mem_pair.1 hx with rfl | rfl <;> rfl
    | map r => cases r <;> cases hx
    | _ => cases hx
  rw [hnil]
  exact Acc.intro _ fun y hy => absurd hy (hleaf y)

end World

/-! ## Sessions -/

/-- A host that makes objects and gives none new contents. -/
def Rules.additions : Rules := ⟨True, False⟩

/-- Data has no cycles. -/
def Invariant.acyclicData : Invariant where
  toRules := .additions
  holds := World.Acyclic
  step hsound hw h _ := h.acyclic id trivial (hsound trivial) hw

instance : Invariant.acyclicData.Open := ⟨rfl⟩

/-- No function that gives an object new contents is called for the request, and no code of the host
does so: an alarm in these places makes no difference. -/
def Interpreter.CallsNoMutator [H : Host] (i : Interpreter) (w : World) (r : Request) : Prop :=
  ∀ alarm : Stop, (@Watch.respond (H.barred alarm) (.barring alarm) i r).run w = (i.respond r).run w

/-- If no code of the host gives objects new contents, it is enough that the request under one alarm
does not end in it: the one that ends a run like a lack of steps. -/
theorem Interpreter.CallsNoMutator.of_run [H : Host] (hhost : H.Additive)
    {i : Interpreter} {w : World} {r : Request}
    (h : Run.isEndless (((Watch.barring .endless).respond i r).run w) = false) :
    i.CallsNoMutator w r := by
  intro alarm
  have halarm := (Watch.barring_below alarm).respond i r
  have hidle := Watch.barring_below_idle.respond i r
  rw [Watch.respond_idle] at hidle
  rw [Host.barred_of_additive hhost, ← halarm.run_eq h, hidle.run_eq h]

/-- Data stays acyclic. Take a session that starts with data without cycles, in which the host gives
no object new contents and no request calls a function that does. Then data has no cycles in any
world of the session, nor before any form or call in the middle of a request, and walks through it
end. The variables of frames are no data in this. -/
theorem Session.data_acyclic [H : Host] {i : Interpreter} {w : World}
    (h : Session .additions World.Acyclic Interpreter.CallsNoMutator i w) :
    w.Acyclic ∧ w.WalksEnd ∧
    ∀ r : Request, r.Valid w → i.CallsNoMutator w r → ∀ alarm : Stop,
      (@Watch.respond (H.barred alarm) ((Watch.barring alarm).both
        (.checking alarm fun _ w => w.Acyclic ∧ @World.WalksEnd H w)) i r).run w =
        (i.respond r).run w := by
  have hallows (alarm : Stop) : @Invariant.AllowsHost .acyclicData (H.barred alarm) :=
    @Invariant.AllowsHost.mk _ (H.barred alarm) (.inr (H.additive_barred alarm))
  have hstart (w₀ : World) (_ : w₀.IsHost) (hw₀ : w₀.Acyclic) (_ : i.env.index = w₀.frames.size) :
      w₀.withInterpreter.Acyclic := by
    have hsame : w₀.withInterpreter.ownParts = w₀.ownParts := by
      funext v
      cases v with
      | map r => cases r <;> rfl
      | _ => rfl
    rw [World.Acyclic, hsame]
    exact hw₀
  have hasks {w : World} {r : Request} (asks : i.CallsNoMutator w r) (valid : r.Valid w)
      (henv : Invariant.acyclicData.Valid w (.env i.env)) (hgood : Invariant.acyclicData.Good w) :
      w.Grows (Run.leaves ((i.respond r).run w)) ∧
        Invariant.acyclicData.Good (Run.leaves ((i.respond r).run w)) := by
    rw [← asks .endless]
    let := H.barred .endless
    have := hallows .endless
    exact ((Invariant.Watches.barring .endless).respond henv trivial (fun _ =>
      valid) hgood).2.leaves
  obtain ⟨hgood, henv⟩ := Session.good (I := .acyclicData) hstart hasks h
  refine ⟨hgood.holds, hgood.holds.walksEnd, fun r valid asks alarm => ?_⟩
  rw [← asks alarm]
  let := H.barred alarm
  have := hallows alarm
  have hwatch := (Invariant.Watches.barring (I := .acyclicData) alarm).checked
    (P := fun _ w => w.Acyclic ∧ @World.WalksEnd H w)
    (fun hgood _ => ⟨hgood.holds, @World.Acyclic.walksEnd _ H hgood.holds⟩) alarm
  exact (hwatch.respond henv trivial (fun _ => valid) hgood).1

/-! ### Sessions with the sample host -/

namespace SampleHost

theorem additive_asking {α : Type} {request : HostRequest} {next : List Known → HostCode α}
    (hrequest : request.isMutator = false) (hnext : ∀ found, (next found).Additive) :
    (asking request next).Additive := by
  refine ⟨hrequest, fun told => ?_⟩
  cases told with
  | ok found => exact hnext found
  | error s => trivial

theorem additive_giving {request : HostRequest} (hrequest : request.isMutator = false) :
    (giving request).Additive :=
  additive_asking hrequest fun found => by cases found <;> trivial

theorem additive_function (f : HostFunctionRef) : (function f).Additive := by
  unfold function
  cases kindOf f with
  | countArguments | explode => exact fun _ _ => trivial
  | tuple | vector | generator => exact fun _ => additive_giving rfl
  | length =>
    intro args
    match args with
    | [] => trivial
    | [_] => exact additive_giving rfl
    | _ :: _ :: _ => trivial
  | toInteger =>
    intro args
    match args with
    | [] => trivial
    | [k] =>
      refine additive_asking rfl fun found => ?_
      dsimp only
      split <;> trivial
    | [_, _] => trivial
    | _ :: _ :: _ :: _ => trivial
  | _ => exact fun _ => trivial

theorem additive_recordAttribute (owner : Known) (name : String) :
    (recordAttribute owner name).Additive := by
  refine additive_asking rfl fun members => ?_
  dsimp only
  split
  · unfold property
    split
    · refine additive_asking rfl fun found => ?_
      cases found with
      | nil => trivial
      | cons k _ => exact additive_asking rfl fun found => by cases found <;> trivial
    · trivial
  · exact additive_asking rfl fun found => by cases found <;> trivial

theorem additive_describe (owner : Known) (start : String) : (describe owner start).Additive := by
  refine additive_asking rfl fun found => ?_
  cases found with
  | nil => exact additive_asking rfl fun _ => trivial
  | cons k _ => exact additive_asking rfl fun _ => trivial

/-- Nothing in the code of the sample host gives an object new contents. -/
theorem additive : sampleHost.Additive where
  function := additive_function
  find name owner := by
    show (find name owner).Additive
    unfold find
    split
    · trivial
    · exact additive_recordAttribute owner name
    · trivial
  resolve name owner := by
    show (resolve name owner).Additive
    unfold resolve
    split
    · trivial
    split
    · trivial
    · exact additive_asking rfl fun found => by cases found <;> trivial
  method name owner args := by
    show (method name owner args).Additive
    unfold method
    split
    · exact additive_describe owner _
    · exact additive_asking rfl fun _ => additive_describe owner _
    · trivial
    · exact additive_giving rfl
    · trivial
    · trivial
  element owner index := by
    show (element owner index).Additive
    unfold element
    split
    · trivial
    · refine additive_asking rfl fun found => ?_
      split <;> trivial
  size owner := additive_asking rfl fun found => trivial

end SampleHost

/-- A world with a vector of the host and, next to it, the interpreter that is made first. -/
def vectorWorld : World := (World.empty.withInterpreter.addVector [.int 1, .int 2]).2

/-- The host binds the vector. -/
def bindVector : Request := .set "data" (.vector ⟨0⟩)

/-- A program builds lists of its elements, one of them twice in another. -/
def pairVector : Request :=
  .evaluate ⟨.unbounded, 20⟩ "(defn twice (x) (list x x)) (setq pair (twice (reverse data)))"

open scoped SampleHost in
/-- The world after the vector has been bound. -/
def vectorBound : World := Run.leaves ((Interpreter.respond ⟨⟨0⟩, ⟨0⟩⟩ bindVector).run vectorWorld)

open scoped SampleHost in
/-- The world after the program. -/
def vectorPaired : World := Run.leaves ((Interpreter.respond ⟨⟨0⟩, ⟨0⟩⟩ pairVector).run vectorBound)

open scoped SampleHost in
/-- Binding a vector and building lists of it leaves data acyclic. -/
theorem Session.data_acyclic_paired :
    Session .additions World.Acyclic Interpreter.CallsNoMutator ⟨⟨0⟩, ⟨0⟩⟩ vectorPaired ∧
    vectorPaired.Acyclic ∧ vectorPaired.WalksEnd := by
  have hvalid : bindVector.Valid vectorWorld := by
    show vectorWorld.InRange (.vector ⟨0⟩)
    decide
  have hbound : Interpreter.CallsNoMutator ⟨⟨0⟩, ⟨0⟩⟩ vectorWorld bindVector :=
    .of_run SampleHost.additive (by decide +kernel)
  have hpaired : Interpreter.CallsNoMutator ⟨⟨0⟩, ⟨0⟩⟩ vectorBound pairVector :=
    .of_run SampleHost.additive (by decide +kernel)
  have hsession : Session .additions World.Acyclic Interpreter.CallsNoMutator ⟨⟨0⟩, ⟨0⟩⟩
      vectorPaired := by
    have hstart : Session .additions World.Acyclic Interpreter.CallsNoMutator ⟨⟨0⟩, ⟨0⟩⟩
        World.empty.withInterpreter := .start World.isHost_empty World.acyclic_empty rfl
    have hvector : Rules.additions.Change World.empty.withInterpreter vectorWorld := by
      refine .vector fun v hv _ => ?_
      rcases List.mem_pair.1 hv with rfl | rfl <;> trivial
    exact ((hstart.change hvector).request hvalid hbound).request trivial hpaired
  have h := Session.data_acyclic hsession
  exact ⟨hsession, h.1, h.2.1⟩

/-- A program gets hold of the variables of the root as a map and assigns this map to
one of them. -/
def holdVariables : Request :=
  .evaluate ⟨.unbounded, 20⟩ "(setq e (.vars (.env (fn () 1))))"

open scoped SampleHost in
/-- The world after the program. -/
def variablesHeld : World :=
  Run.leaves ((Interpreter.respond ⟨⟨0⟩, ⟨0⟩⟩ holdVariables).run World.empty.withInterpreter)

open scoped SampleHost in
/-- The variables of the root as a map hold themselves after the program, though no function is
called that gives an object new contents. So there is a cycle, and showing this map does not end. -/
theorem variables_hold_themselves :
    Session .additions World.Acyclic Interpreter.CallsNoMutator ⟨⟨0⟩, ⟨0⟩⟩ variablesHeld ∧
    variablesHeld.lookup? ⟨0⟩ ⟨"e"⟩ = some (.map (.vars ⟨0⟩)) ∧
    (.map (.vars ⟨0⟩) ∈ variablesHeld.components (.map (.vars ⟨0⟩))) ∧
    (¬ WellFounded fun x v => x ∈ variablesHeld.components v) ∧
    variablesHeld.displayText .unbounded (.map (.vars ⟨0⟩)) = .error .tooDeep := by
  have hholds : .map (.vars ⟨0⟩) ∈ variablesHeld.components (.map (.vars ⟨0⟩)) := by decide +kernel
  have hasks : Interpreter.CallsNoMutator ⟨⟨0⟩, ⟨0⟩⟩ World.empty.withInterpreter holdVariables :=
    .of_run SampleHost.additive (by decide +kernel)
  have hstart : Session .additions World.Acyclic Interpreter.CallsNoMutator ⟨⟨0⟩, ⟨0⟩⟩
      World.empty.withInterpreter := .start World.isHost_empty World.acyclic_empty rfl
  exact ⟨hstart.request trivial hasks, by decide +kernel, hholds,
    fun h => World.not_inside_of_acc (h.apply _) hholds .refl, by decide +kernel⟩

end TemplateLisp
