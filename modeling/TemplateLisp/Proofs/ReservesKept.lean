import TemplateLisp.Proofs.DataKept

/-!
# Evaluations leave what is out of reach

A program gets at an object through what it works with and what is held by the world. So an
evaluation that starts from a form outside of a reserve, in a world where nothing refers into the
reserve, leaves every object of the reserve as it is, whatever the program does, and gives a value
outside of it (`Reserve.Safe.value`). Objects that have just been made may be put into the reserve
(`Reserve.Safe.since`).
-/

namespace TemplateLisp

namespace World

/-- The second world has more pairs, vectors and maps, and nothing else is different. -/
structure Extends (w w' : World) : Prop extends w.Keeps w' where
  rest : { w' with cells := w.cells, vectors := w.vectors, maps := w.maps } = w

variable {w w' w'' : World}

@[refl] theorem Extends.refl (w : World) : w.Extends w := ⟨.refl w, rfl⟩

theorem Extends.trans (h : w.Extends w') (h' : w'.Extends w'') : w.Extends w'' where
  toKeeps := h.toKeeps.trans h'.toKeeps
  rest := by rw [← h.rest, ← h'.rest]

theorem Extends.frames_eq (h : w.Extends w') : w'.frames = w.frames :=
  (congrArg World.frames h.rest :)

theorem Extends.closures_eq (h : w.Extends w') : w'.closures = w.closures :=
  (congrArg World.closures h.rest :)

theorem Extends.objects_eq (h : w.Extends w') : w'.objects = w.objects :=
  (congrArg World.objects h.rest :)

theorem Extends.macroTables_eq (h : w.Extends w') : w'.macroTables = w.macroTables :=
  (congrArg World.macroTables h.rest :)

/-- A map has the entries that it had, the variables of a frame included. -/
theorem Extends.entries_eq (h : w.Extends w') {r : MapRef} (hr : w.InRange (.map r)) :
    w'.entries r = w.entries r := by
  cases r with
  | own index => exact h.entries index hr
  | vars env => rw [World.entries, World.entries, frame, frame, h.frames_eq]

theorem extends_addCell (w : World) (c : Cell) : w.Extends (w.addCell c).2 where
  toKeeps := (Rules.Change.cell (R := ⟨False, False⟩) nofun nofun).keeps id
  rest := rfl

theorem extends_addVector (w : World) (items : List Value) : w.Extends (w.addVector items).2 where
  toKeeps := (Rules.Change.vector (R := ⟨False, False⟩) fun _ _ => nofun).keeps id
  rest := rfl

theorem extends_addMap (w : World) (es : List (Value × Value)) : w.Extends (w.addMap es).2 where
  toKeeps := (Rules.Change.map (R := ⟨False, False⟩) fun _ _ => ⟨nofun, nofun⟩).keeps id
  rest := rfl

theorem extends_addList (w : World) (items : List Value) (tail : Value) :
    w.Extends (w.addList items tail).2 := by
  unfold addList
  generalize items.reverse = later
  induction later generalizing w tail with
  | nil => rfl
  | cons item later ih => exact (w.extends_addCell ⟨item, tail, none⟩).trans (ih _ _)

end World

namespace Reserve

/-- The objects of the reserve are the same in both worlds. -/
structure Same (s : Reserve) (w w' : World) : Prop where
  cell : ∀ r, s.cells r → w'.cell r = w.cell r
  vector : ∀ r, s.vectors r → w'.vector r = w.vector r
  entries : ∀ index, s.maps index → w'.entries (.own index) = w.entries (.own index)
  closure : ∀ r, s.closures r → w'.closure r = w.closure r
  frame : ∀ r, s.frames r → w'.frame r = w.frame r

/-- Everything that is referred to exists, and nothing refers into the reserve. -/
structure Safe (s : Reserve) (w : World) : Prop where
  sound : w.Sound
  apart : s.Apart w

/-- Nothing has been lost, the reserve is as it was, and it is still out of reach. -/
structure Kept (s : Reserve) (w w' : World) : Prop extends s.Same w w' where
  grows : w.Grows w'
  safe : s.Safe w'

variable {s : Reserve} {w w' w'' : World}

theorem Same.refl : s.Same w w :=
  ⟨fun _ _ => rfl, fun _ _ => rfl, fun _ _ => rfl, fun _ _ => rfl, fun _ _ => rfl⟩

theorem Same.trans (h : s.Same w w') (h' : s.Same w' w'') : s.Same w w'' where
  cell r hr := (h'.cell r hr).trans (h.cell r hr)
  vector r hr := (h'.vector r hr).trans (h.vector r hr)
  entries index hr := (h'.entries index hr).trans (h.entries index hr)
  closure r hr := (h'.closure r hr).trans (h.closure r hr)
  frame r hr := (h'.frame r hr).trans (h.frame r hr)

/-- Where there is only more, the objects of a reserve are the same. -/
theorem Apart.extends (h : s.Apart w) (hw : w.Extends w') : s.Same w w' where
  cell r hr := hw.cell r (h.cells r hr)
  vector r hr := hw.vector r (h.vectors r hr)
  entries index hr := hw.entries index (h.maps index hr)
  closure r _ := by rw [World.closure, World.closure, hw.closures_eq]
  frame r _ := by rw [World.frame, World.frame, hw.frames_eq]

theorem safe_none (h : w.Sound) : none.Safe w := ⟨h, apart_none h⟩

/-- The objects of the reserve and the pairs, vectors and maps that there are in the second world
only. -/
def since (s : Reserve) (w w' : World) : Reserve where
  cells r := s.cells r ∨ w.cells.size ≤ r.index ∧ r.index < w'.cells.size
  vectors r := s.vectors r ∨ w.vectors.size ≤ r.index ∧ r.index < w'.vectors.size
  maps index := s.maps index ∨ w.maps.size ≤ index ∧ index < w'.maps.size
  closures := s.closures
  frames := s.frames

/-- What there was outside of the reserve is not new. -/
theorem Admits.since {v : Value} (h : s.Admits w v) (hw : w.Grows w') :
    (s.since w w').Admits w' v := by
  have hrange := h.inRange.mono hw
  cases v with
  | cell r | vector r => exact ⟨hrange, fun hr => hr.elim h.2 fun hnew => Nat.not_lt.2 hnew.1 h.1⟩
  | map r =>
    cases r with
    | own index => exact ⟨hrange, fun hr => hr.elim h.2 fun hnew => Nat.not_lt.2 hnew.1 h.1⟩
    | vars env => exact ⟨hrange, h.2⟩
  | closure r | env r => exact ⟨hrange, h.2⟩
  | _ => exact hrange

theorem getD_of_not_new {α : Type} {a a' : Array α} {i : Nat} {d : α} (h : a.size ≤ i)
    (h' : ¬ (a.size ≤ i ∧ i < a'.size)) : a'.getD i d = a.getD i d := by
  rw [World.getD_of_le h, World.getD_of_le (Nat.not_lt.1 fun hi => h' ⟨h, hi⟩)]

/-- What is neither new nor in the reserve has the contents that it had. -/
theorem held_of_not_since (hw : w.Extends w') {place : World.Holder}
    (hplace : ¬ (s.since w w').Covers place) : w'.held place = w.held place := by
  cases place with
  | cell r =>
    have hcell : w'.cell r = w.cell r := by
      by_cases hr : r.index < w.cells.size
      · exact hw.cell r hr
      · exact getD_of_not_new (Nat.not_lt.1 hr) fun hnew => hplace (.inr hnew)
    rw [World.held, hcell, World.held]
  | vector r =>
    by_cases hr : r.index < w.vectors.size
    · exact hw.vector r hr
    · exact getD_of_not_new (Nat.not_lt.1 hr) fun hnew => hplace (.inr hnew)
  | map index =>
    have hentries : w'.entries (.own index) = w.entries (.own index) := by
      by_cases hr : index < w.maps.size
      · exact hw.entries index hr
      · exact getD_of_not_new (Nat.not_lt.1 hr) fun hnew => hplace (.inr hnew)
    rw [World.held, hentries, World.held]
  | _ =>
    rw [← hw.rest]
    rfl

/-- New objects may be put into the reserve. They may refer to what is in it. -/
theorem Safe.since (h : s.Safe w) (hw : w.Extends w') (hsound : w'.Sound) :
    (s.since w w').Safe w' where
  sound := hsound
  apart :=
    { cells := fun r hr =>
        hr.elim (fun hs => Nat.lt_of_lt_of_le (h.apart.cells r hs) hw.cells) (·.2)
      vectors := fun r hr =>
        hr.elim (fun hs => Nat.lt_of_lt_of_le (h.apart.vectors r hs) hw.vectors) (·.2)
      maps := fun r hr => hr.elim (fun hs => Nat.lt_of_lt_of_le (h.apart.maps r hs) hw.maps) (·.2)
      closures := fun r hr => Nat.lt_of_lt_of_le (h.apart.closures r hr) hw.closures
      frames := fun r hr => Nat.lt_of_lt_of_le (h.apart.frames r hr) hw.frames
      held := fun place hplace v hv => by
        rw [held_of_not_since hw hplace] at hv
        refine (h.apart.held place (fun hs => hplace ?_) v hv).since hw.toGrows
        cases place with
        | cell r | vector r | map r => exact .inl hs
        | _ => exact hs }

end Reserve

/-- No change does anything to a closure. -/
theorem Rules.Change.closure_eq {R : Rules} {w w' : World} (h : R.Change w w') {r : ClosureRef}
    (hr : r.index < w.closures.size) : w'.closure r = w.closure r := by
  cases h with
  | closure => rw [World.closure_addClosure, if_neg (Nat.ne_of_lt hr)]
  | _ => rfl

theorem Reserve.Apart.same {s : Reserve} {w w' : World} {R : Rules} (h : s.Apart w)
    (hchange : R.Change w w') (hstep : s.Respects w w') : s.Same w w' where
  cell r hr := hstep.cell r hr (h.cells r hr)
  vector r hr := hstep.vector r hr (h.vectors r hr)
  entries index hr := hstep.entries index hr (h.maps index hr)
  closure r hr := hchange.closure_eq (h.closures r hr)
  frame r hr := hstep.frame r hr (h.frames r hr)

/-- The reserve is out of reach, and its objects are as they were in `w₀`. Objects may get new
contents. -/
def Invariant.untouched (s : Reserve) (w₀ : World) : Invariant where
  toRules := ⟨True, True⟩
  holds w := s.Apart w ∧ s.Same w₀ w
  reserve := s
  apart _ _ h := h.1
  step _ h hchange hrespects :=
    ⟨h.1.step hchange.grows (hrespects trivial), h.2.trans (h.1.same hchange (hrespects trivial))⟩

instance (s : Reserve) (w₀ : World) [Host] : (Invariant.untouched s w₀).AllowsHost := ⟨.inl trivial⟩

namespace Reserve

variable {s : Reserve} {w w' : World}

theorem Safe.good (h : s.Safe w) : (Invariant.untouched s w).Good w :=
  ⟨fun _ => h.sound, h.apart, .refl⟩

theorem Kept.of_good (hgrows : w.Grows w') (h : (Invariant.untouched s w).Good w') : s.Kept w w' :=
  ⟨h.holds.2, hgrows, h.sound trivial, h.holds.1⟩

theorem evaluators_agree [Host] (w : World) (n : Nat) :
    (Invariant.untouched s w).Evaluators (evaluator n) (evaluator n) := by
  rw [← Watch.evaluator_idle]
  exact (Invariant.Watches.idle trivial).evaluator n

/-- An evaluation that gives a value leaves the reserve as it is, and the value is outside of it. -/
theorem Safe.value [Host] (h : s.Safe w) {site : Site}
    (henv : s.Admits w (.env site.env)) {v x : Value} (hv : s.Admits w v) {n : Nat}
    (hrun : ((evaluator n).value site v).run w = .ok x w') :
    s.Kept w w' ∧ s.Admits w' x := by
  have hends := (Invariant.Agree.value (evaluators_agree w n) ⟨fun _ => henv, trivial⟩
    (fun _ => hv) h.good).2
  rw [hrun] at hends
  exact ⟨.of_good hends.1 hends.2.1, hends.2.2 trivial⟩

/-- A new list of values from outside of the reserve stays outside. -/
theorem Safe.addList (h : s.Safe w) {items : List Value} (hitems : ∀ v ∈ items, s.Admits w v) :
    s.Safe (w.addList items .nil).2 ∧ s.Admits (w.addList items .nil).2
      (w.addList items .nil).1 := by
  obtain ⟨hevolves, hlist⟩ := h.good.evolves_addList (fun v hv _ => hitems v hv) Invariant.valid_nil
  have hgood := h.good.evolves hevolves
  exact ⟨⟨hgood.sound trivial, hgood.holds.1⟩, hlist trivial⟩

/-- The elements that are taken from a sequence outside of the reserve are outside. -/
theorem Safe.items [Host] (h : s.Safe w) {v : Value} (hv : s.Admits w v) {room : Room}
    {name : String} {index : Nat} {xs : List Value}
    (hrun : (Run.items room name index v).run w = .ok xs w') :
    s.Safe w' ∧ ∀ x ∈ xs, s.Admits w' x := by
  have hends := (Invariant.Agree.items (I := .untouched s w) room name index (fun _ => hv) h.good).2
  rw [hrun] at hends
  obtain ⟨-, hgood, hxs⟩ := hends
  exact ⟨⟨hgood.sound trivial, hgood.holds.1⟩, fun x hx => hxs x hx trivial⟩

/-- What a macro expands to is outside of the reserve where the arguments are. -/
theorem Safe.expansion (h : s.Safe w) {m : BuiltinMacro} {room : Room}
    {args : List Value} {e : Value} (hargs : ∀ v ∈ args, s.Admits w v)
    (hrun : (m.expand room args).run w = .ok e w') :
    s.Safe w' ∧ w.Grows w' ∧ s.Admits w' e := by
  have hends :=
    (Invariant.Agree.expandBuiltin (I := .untouched s w) m room (fun v hv _ => hargs v hv)
    h.good).2
  rw [hrun] at hends
  obtain ⟨hgrows, hgood, he⟩ := hends
  exact ⟨⟨hgood.sound trivial, hgood.holds.1⟩, hgrows, he trivial⟩

/-! ## Reserves that grow -/

/-- All objects of the first reserve are in the second one. -/
structure Le (s s' : Reserve) : Prop where
  cells : ∀ r, s.cells r → s'.cells r
  vectors : ∀ r, s.vectors r → s'.vectors r
  maps : ∀ r, s.maps r → s'.maps r
  closures : ∀ r, s.closures r → s'.closures r
  frames : ∀ r, s.frames r → s'.frames r

/-- There were no objects of the reserve in the world. -/
structure Newer (s : Reserve) (w₀ : World) : Prop where
  cells : ∀ r, s.cells r → w₀.cells.size ≤ r.index
  vectors : ∀ r, s.vectors r → w₀.vectors.size ≤ r.index
  maps : ∀ index, s.maps index → w₀.maps.size ≤ index
  closures : ∀ r, s.closures r → w₀.closures.size ≤ r.index
  frames : ∀ r, s.frames r → w₀.frames.size ≤ r.index

variable {s s' s'' : Reserve} {w w' w₀ : World} {v : Value}

theorem Le.refl : s.Le s := ⟨fun _ => id, fun _ => id, fun _ => id, fun _ => id, fun _ => id⟩

theorem Le.trans (h : s.Le s') (h' : s'.Le s'') : s.Le s'' :=
  ⟨fun r hr => h'.cells r (h.cells r hr), fun r hr => h'.vectors r (h.vectors r hr),
    fun r hr => h'.maps r (h.maps r hr), fun r hr => h'.closures r (h.closures r hr),
    fun r hr => h'.frames r (h.frames r hr)⟩

theorem le_since (s : Reserve) (w w' : World) : s.Le (s.since w w') :=
  ⟨fun _ => .inl, fun _ => .inl, fun _ => .inl, fun _ => id, fun _ => id⟩

theorem Same.mono (h : s'.Same w w') (hs : s.Le s') : s.Same w w' :=
  ⟨fun r hr => h.cell r (hs.cells r hr), fun r hr => h.vector r (hs.vectors r hr),
    fun r hr => h.entries r (hs.maps r hr), fun r hr => h.closure r (hs.closures r hr),
    fun r hr => h.frame r (hs.frames r hr)⟩

theorem Newer.none (w₀ : World) : none.Newer w₀ :=
  ⟨fun _ => False.elim, fun _ => False.elim, fun _ => False.elim, fun _ => False.elim,
    fun _ => False.elim⟩

theorem Newer.since (h : s.Newer w₀) (hgrows : w₀.Grows w) (w' : World) :
    (s.since w w').Newer w₀ where
  cells r hr := hr.elim (h.cells r) fun hnew => Nat.le_trans hgrows.cells hnew.1
  vectors r hr := hr.elim (h.vectors r) fun hnew => Nat.le_trans hgrows.vectors hnew.1
  maps r hr := hr.elim (h.maps r) fun hnew => Nat.le_trans hgrows.maps hnew.1
  closures := h.closures
  frames := h.frames

/-- What was there is not in a newer reserve. -/
theorem Newer.admits (h : s.Newer w₀) (hgrows : w₀.Grows w) (hv : w₀.InRange v) : s.Admits w v := by
  have hrange := hv.mono hgrows
  cases v with
  | cell r => exact ⟨hrange, fun hr => Nat.not_lt.2 (h.cells r hr) hv⟩
  | vector r => exact ⟨hrange, fun hr => Nat.not_lt.2 (h.vectors r hr) hv⟩
  | map r =>
    cases r with
    | own index => exact ⟨hrange, fun hr => Nat.not_lt.2 (h.maps index hr) hv⟩
    | vars env => exact ⟨hrange, fun hr => Nat.not_lt.2 (h.frames env hr) hv⟩
  | env r => exact ⟨hrange, fun hr => Nat.not_lt.2 (h.frames r hr) hv⟩
  | closure r => exact ⟨hrange, fun hr => Nat.not_lt.2 (h.closures r hr) hv⟩
  | _ => exact hrange

end Reserve

/-- Evaluating a form leaves what is out of its reach as it is. -/
def Evaluator.LeavesReserves (e : Evaluator) : Prop :=
  ∀ (s : Reserve) (w w' : World) (site : Site) (v x : Value), s.Safe w →
    s.Admits w (.env site.env) → s.Admits w v → (e.value site v).run w = .ok x w' →
    s.Kept w w' ∧ s.Admits w' x

theorem evaluator_leavesReserves [Host] (n : Nat) : (evaluator n).LeavesReserves :=
  fun _ _ _ _ _ _ hsafe hframe hv hrun => hsafe.value hframe hv hrun

end TemplateLisp
