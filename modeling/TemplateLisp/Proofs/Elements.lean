import TemplateLisp.Proofs.FormOutcomes

/-!
# The elements of sequences

What a world says the elements of a sequence are (`World.contents?`), and what a walk through it
comes upon (`Cursor.Walks`). An element of a map is an entry: each walk shows it as a new list of
key and value (`World.Shows`). A walk comes upon the elements one after the other as long as the
sequence stays as it was, whatever else happens between its steps (`Cursor.Walks.next`), and
`Run.items` takes all of them at once (`Run.items_contents`).
-/

namespace TemplateLisp

/-- What stands at one place of a sequence. -/
inductive Element where
  | value (v : Value)
  | entry (key value : Value)

namespace World

/-- The elements of a sequence of the language: of `nil`, a proper list, a vector, a fixed sequence,
a text, bytes or a map. -/
def contents? (w : World) : Value → Option (List Element)
  | .nil => some []
  | .cell r =>
    match w.spine? (.cell r) with
    | some (cells, .nil) => some (cells.map fun c => .value c.car)
    | _ => none
  | .vector r => some ((w.vector r).map .value)
  | .tuple r => some ((w.tuple r).map .value)
  | .str s => some (s.toList.map fun c => .value (.str (String.singleton c)))
  | .bytes bs => some (bs.map fun b => .value (.int b.toNat))
  | .map r => some ((w.entries r).map fun (k, v) => .entry k v)
  | _ => none

/-- How an element is shown: a value as it is, an entry as a list made since the world `old`. -/
def Shows (old w : World) : Element → Value → Prop
  | .value x, v => v = x
  | .entry k x, v => NewList old w v [k, x]

/-- The values show the elements one by one. -/
abbrev ShowsAll (old w : World) : List Element → List Value → Prop := List.Forall₂ (Shows old w)

/-- The sequence is the same in both worlds: a list is made of the same pairs with the same halves,
a vector has the same elements and a map the same entries. -/
def SameSequence (w w' : World) : Value → Prop
  | .cell r => w'.spine? (.cell r) = w.spine? (.cell r)
  | .vector r => w'.vector r = w.vector r
  | .map r => w'.entries r = w.entries r
  | _ => True

variable {old w w' : World} {v x : Value} {el : Element} {els : List Element} {xs : List Value}

theorem SameSequence.refl (w : World) (v : Value) : w.SameSequence w v := by
  unfold SameSequence
  split <;> trivial

theorem Shows.keeps (h : Shows old w el x) (hw : w.Keeps w') : Shows old w' el x := by
  cases el with
  | value => exact h
  | entry => exact NewList.keeps h hw

theorem Shows.since {older : World} (h : Shows old w el x)
    (hle : older.cells.size ≤ old.cells.size) : Shows older w el x := by
  cases el with
  | value => exact h
  | entry => exact NewList.since h hle

theorem showsAll_values {vs : List Value} : ShowsAll old w (vs.map .value) xs ↔ xs = vs := by
  refine List.forall₂_map_left_iff.trans ⟨fun h => ?_, ?_⟩
  · exact (List.forall₂_eq_eq_eq ▸ h.flip : xs = vs)
  · rintro rfl
    exact List.forall₂_same.2 fun _ _ => rfl

theorem showsAll_map {α : Type} (f : α → Value) (l : List α) :
    ShowsAll old w (l.map fun a => .value (f a)) (l.map f) :=
  List.forall₂_map_left_iff.2 (List.forall₂_map_right_iff.2 (List.forall₂_same.2 fun _ _ => rfl))

/-- A list has the elements that its pairs hold. -/
theorem contents?_cell {r : CellRef} (h : w.contents? (.cell r) = some els) :
    ∃ cells, w.spine? (.cell r) = some (cells, .nil) ∧ els = cells.map fun c => .value c.car := by
  simp only [contents?] at h
  split at h
  · rename_i cells hspine
    cases h
    exact ⟨cells, hspine, rfl⟩
  · cases h

/-! ## Chains of pairs -/

/-- The value is a proper list of the pairs at the references. -/
inductive ListAt (w : World) : Value → List CellRef → Prop
  | nil : ListAt w .nil []
  | pair {r : CellRef} {rs : List CellRef} : ListAt w (w.cell r).cdr rs →
    ListAt w (.cell r) (r :: rs)

theorem Spine.listAt {cells : List Cell} {tail : Value} (h : w.Spine v cells tail)
    (htail : tail = .nil) :
    ∃ rs, w.ListAt v rs ∧ cells = rs.map w.cell := by
  induction h with
  | stop =>
    subst htail
    exact ⟨[], .nil, rfl⟩
  | @pair r _ _ _ ih =>
    obtain ⟨rs, hrs, rfl⟩ := ih htail
    exact ⟨r :: rs, .pair hrs, rfl⟩

/-- A list that is made of the same pairs in another world has them at the same references. -/
theorem ListAt.of_spine {rs : List CellRef} (h : w.ListAt v rs)
    (hspine : w'.Spine v (rs.map w.cell) .nil) :
    w'.ListAt v rs ∧ ∀ r ∈ rs, w'.cell r = w.cell r := by
  induction h with
  | nil => exact ⟨.nil, nofun⟩
  | @pair r rs _ ih =>
    rw [List.map_cons] at hspine
    generalize hcell : w.cell r = c at hspine
    cases hspine with
    | pair hrest =>
      rw [← hcell] at hrest
      obtain ⟨hlist, hsame⟩ := ih hrest
      rw [hcell] at hlist
      exact ⟨.pair hlist, List.forall_mem_cons.2 ⟨hcell.symm, hsame⟩⟩

/-- In a world in which everything exists, a chain of pairs stays as it is where the pairs stay. -/
theorem Spine.keeps {cells : List Cell} {tail : Value} (h : w.Spine v cells tail) (hw : w.Sound)
    (hv : w.InRange v) (hk : w.Keeps w') : w'.Spine v cells tail := by
  induction h with
  | stop hstop => exact .stop hstop
  | @pair r cells tail _ ih =>
    have hcdr := hw.held (.cell r) _ (List.mem_cons_of_mem _ List.mem_cons_self)
    have hcell := hk.cell r hv
    rw [← hcell]
    refine .pair ?_
    rw [hcell]
    exact ih hcdr

theorem ListOf.keeps (h : w.ListOf v xs) (hw : w.Sound) (hv : w.InRange v) (hk : w.Keeps w') :
    w'.ListOf v xs := by
  obtain ⟨cells, hspine, hcells⟩ := h
  obtain ⟨rest, hrest, hchain, hlength⟩ := spine_of_spineAt hspine
  obtain rfl : cells = rest := hrest
  refine ⟨cells, (hchain.keeps hw hv hk).spineAt ?_ [], hcells⟩
  have hsize := hk.cells
  omega

theorem ListOf.contents? (h : w.ListOf v xs) : w.contents? v = some (xs.map .value) := by
  cases xs with
  | nil =>
    rw [h.nil_inv]
    rfl
  | cons x xs =>
    obtain ⟨r, rfl, -, -⟩ := h.cons_inv
    obtain ⟨cells, hspine, hcells⟩ := h
    simp only [World.contents?, hspine, ← hcells, List.map_map]
    rfl

/-- A list is a sequence of values. -/
theorem listOf_of_contents? {r : CellRef} (h : w.contents? (.cell r) = some els) :
    ∃ xs, els = xs.map .value ∧ w.ListOf (.cell r) xs := by
  obtain ⟨cells, hspine, rfl⟩ := contents?_cell h
  refine ⟨cells.map (·.car), ?_, cells, hspine, rfl⟩
  rw [List.map_map]
  rfl

/-- A sequence keeps its elements where data keep their contents; the variables of a frame must be
kept besides. -/
theorem contents?_keeps (h : w.contents? v = some els) (hw : w.Sound) (hv : w.InRange v)
    (hk : w.Keeps w') (hvars : ∀ env, v = .map (.vars env) → w'.frame env = w.frame env) :
    w'.contents? v = some els := by
  cases v with
  | cell r =>
    obtain ⟨xs, rfl, hlist⟩ := listOf_of_contents? h
    exact (hlist.keeps hw hv hk).contents?
  | vector r => rwa [contents?, hk.vector r hv]
  | tuple r => rwa [contents?, hk.tuple r hv]
  | map r =>
    cases r with
    | own index => rwa [contents?, hk.entries index hv]
    | vars env => rwa [contents?, entries, hvars env rfl]
  | _ => exact h

theorem contents?_extends (h : w.contents? v = some els) (hw : w.Sound) (hv : w.InRange v)
    (hext : w.Extends w') : w'.contents? v = some els :=
  contents?_keeps h hw hv hext.toKeeps fun env _ => by rw [frame, frame, hext.frames_eq]

end World

namespace Cursor

/-- The elements from here on as things stand, where the walk is one through `v`; `rs` are the pairs
of what is left of a list. -/
def Ahead (w : World) (v : Value) (rs : List CellRef) (els : List Element) : Cursor → Prop
  | .list whole behind =>
    w.ListAt (w.restOf whole behind) rs ∧ els = rs.map fun r => .value (w.cell r).car
  | .items rest => els = rest.map .value
  | .entries r index size =>
    v = .map r ∧ (w.entries r).length = size ∧
      els = ((w.entries r).drop index).map fun (k, x) => .entry k x
  | .vector r index => v = .vector r ∧ els = ((w.vector r).drop index).map .value
  | _ => False

/-- The elements from here on of the walk through `v`, as long as `v` stays as it was in the world
`start`. -/
def Walks (start : World) (v : Value) (els : List Element) (c : Cursor) : Prop :=
  ∃ rs, ∀ w, start.SameSequence w v → c.Ahead w v rs els

variable {start w : World} {v : Value} {el : Element} {els : List Element} {c : Cursor}

/-- A walk starts in front of all elements. -/
theorem walks_of_contents? (h : w.contents? v = some els) :
    ∃ c, w.cursor? v = some c ∧ c.Walks w v els ∧ els.length < w.walkLength c := by
  cases v with
  | nil =>
    cases h
    exact ⟨_, rfl, ⟨[], fun _ _ => rfl⟩, Nat.zero_lt_succ _⟩
  | cell r =>
    obtain ⟨cells, hspine, rfl⟩ := World.contents?_cell h
    obtain ⟨rest, hrest, hchain, hlength⟩ := World.spine_of_spineAt hspine
    obtain rfl : cells = rest := hrest
    obtain ⟨rs, hrs, rfl⟩ := hchain.listAt rfl
    refine ⟨_, rfl, ⟨rs, fun w' hw' => ?_⟩, ?_⟩
    · obtain ⟨cells, hcells, hchain, -⟩ := World.spine_of_spineAt (hw'.trans hspine)
      obtain rfl : _ = cells := hcells
      obtain ⟨hlist, hsame⟩ := hrs.of_spine hchain
      refine ⟨hlist, ?_⟩
      rw [List.map_map]
      exact List.map_congr_left fun r hr => by rw [hsame r hr]; rfl
    · rw [List.length_map]
      exact hlength
  | vector r =>
    cases h
    refine ⟨_, rfl, ⟨[], fun w' hw' => ⟨rfl, ?_⟩⟩, ?_⟩
    · rw [show w'.vector r = w.vector r from hw', List.drop_zero]
    · simp only [World.walkLength, List.length_map]
      omega
  | tuple r | str s | bytes bs =>
    cases h
    refine ⟨_, rfl, ⟨[], fun _ _ => ?_⟩, ?_⟩
    · simp [Ahead]
    · simp only [World.walkLength, List.length_map]
      omega
  | map r =>
    cases h
    refine ⟨_, rfl, ⟨[], fun w' hw' => ?_⟩, ?_⟩
    · have hentries : w'.entries r = w.entries r := hw'
      refine ⟨rfl, congrArg List.length hentries, ?_⟩
      rw [hentries, List.drop_zero]
    · simp only [World.walkLength, List.length_map]
      omega
  | _ => cases h

/-- Behind the last element there is nothing. -/
theorem Walks.next_nil [Host] (h : c.Walks start v []) (hw : start.SameSequence w v) (room : Room) :
    (c.next room).run w = .ok none w := by
  obtain ⟨rs, hahead⟩ := h
  have hc := hahead w hw
  cases c with
  | list whole behind =>
    obtain ⟨hlist, hels⟩ := hc
    cases rs with
    | cons => cases hels
    | nil =>
      cases hrest : w.restOf whole behind <;> rw [hrest] at hlist <;> cases hlist
      rw [next, Run.run_look_bind, hrest]
      rfl
  | items rest =>
    cases rest with
    | nil => rfl
    | cons => cases hc
  | entries r index size =>
    obtain ⟨-, rfl, hels⟩ := hc
    have hlast : (w.entries r)[index]? = none :=
      List.getElem?_eq_none (List.drop_eq_nil_iff.1 (List.map_eq_nil_iff.1 hels.symm))
    rw [next, Run.run_look_bind, if_neg (by simp), hlast]
    rfl
  | vector r index =>
    have hlast : (w.vector r)[index]? = none :=
      List.getElem?_eq_none (List.drop_eq_nil_iff.1 (List.map_eq_nil_iff.1 hc.2.symm))
    rw [next, Run.run_look_bind, hlast]
    rfl
  | generator | object => cases hc

/-- The next element is shown, and the walk goes on behind it; the world has got a new
list at most. -/
theorem Walks.next_cons [Host] (h : c.Walks start v (el :: els)) (hw : start.SameSequence w v)
    (room : Room) :
    ∃ x c' w', (c.next room).run w = .ok (some (x, c')) w' ∧ World.Shows w w' el x ∧ w.Extends w' ∧
      start.SameSequence w' v ∧ c'.Walks start v els := by
  obtain ⟨rs, hahead⟩ := h
  have hc := hahead w hw
  cases c with
  | list whole behind =>
    obtain ⟨hlist, hels⟩ := hc
    cases rs with
    | nil => cases hels
    | cons r rs =>
      have hrest : w.restOf whole behind = .cell r := by
        cases hrest : w.restOf whole behind <;> rw [hrest] at hlist <;> cases hlist
        rfl
      refine ⟨(w.cell r).car, .list whole (some r), w, ?_, (List.cons.inj hels).1 ▸ rfl,
        .refl w, hw, rs,
        fun w' hw' => ?_⟩
      · rw [next, Run.run_look_bind, hrest]
        rfl
      · obtain ⟨hlist', hels'⟩ := hahead w' hw'
        generalize w'.restOf whole behind = v' at hlist'
        cases hlist' with
        | pair hlist' => exact ⟨hlist', (List.cons.inj hels').2⟩
  | items rest =>
    cases rest with
    | nil => cases hc
    | cons y ys =>
      refine ⟨y, .items ys, w, rfl, (List.cons.inj hc).1 ▸ rfl, .refl w, hw, [], fun _ _ => ?_⟩
      exact (List.cons.inj hc).2
  | entries r index size =>
    obtain ⟨rfl, rfl, hels⟩ := hc
    cases hdrop : (w.entries r).drop index with
    | nil =>
      rw [hdrop] at hels
      cases hels
    | cons e rest =>
      obtain ⟨k, x⟩ := e
      rw [hdrop] at hels
      cases hels
      have hat : (w.entries r)[index]? = some (k, x) := by
        rw [← List.head?_drop, hdrop]
        rfl
      refine ⟨(w.addList [k, x] .nil).1, .entries r (index + 1) (w.entries r).length,
        (w.addList [k, x] .nil).2, ?_, World.newList_addList w _ (Nat.le_refl _) fun _ _ _ => rfl,
        w.extends_addList _ _, ?_, [], fun w' hw' => ?_⟩
      · rw [next, Run.run_look_bind, if_neg (by simp), hat]
        rfl
      · exact Eq.trans rfl hw
      · obtain ⟨-, hsize, hels'⟩ := hahead w' hw'
        refine ⟨rfl, hsize, ?_⟩
        rw [← List.drop_drop, List.map_drop, ← hels']
        rfl
  | vector r index =>
    obtain ⟨rfl, hels⟩ := hc
    cases hdrop : (w.vector r).drop index with
    | nil =>
      rw [hdrop] at hels
      cases hels
    | cons x rest =>
      rw [hdrop] at hels
      cases hels
      have hat : (w.vector r)[index]? = some x := by
        rw [← List.head?_drop, hdrop]
        rfl
      refine ⟨x, .vector r (index + 1), w, ?_, rfl, .refl w, hw, [], fun w' hw' => ⟨rfl, ?_⟩⟩
      · rw [next, Run.run_look_bind, hat]
        rfl
      · rw [← List.drop_drop, List.map_drop, ← (hahead w' hw').2]
        rfl
  | generator | object => cases hc

/-- All elements are shown, one after the other. -/
theorem Walks.mapAt [Host] (h : c.Walks start v els) (hw : start.SameSequence w v)
    (room : Room) {fuel : Nat} (hfuel : els.length < fuel) (found : List Value) : ∃ xs w',
      (Cursor.mapAt room pure fuel found c).run w = .ok (found.reverse ++ xs) w' ∧
        World.ShowsAll w w' els xs ∧ w.Extends w' := by
  induction els generalizing c w fuel found with
  | nil =>
    obtain ⟨n, rfl⟩ : ∃ n, fuel = n + 1 := ⟨fuel - 1, by omega⟩
    refine ⟨[], w, ?_, .nil, .refl w⟩
    rw [Cursor.mapAt, EStateM.run_bind, h.next_nil hw, List.append_nil]
    rfl
  | cons el els ih =>
    obtain ⟨n, rfl⟩ : ∃ n, fuel = n + 1 := ⟨fuel - 1, by omega⟩
    obtain ⟨x, c', w₁, hnext, hshows, hextends, hsame, hwalks⟩ := h.next_cons hw room
    rw [List.length_cons, Nat.add_lt_add_iff_right] at hfuel
    obtain ⟨xs, w', hrun, hall, hextends'⟩ := ih hwalks hsame hfuel (x :: found)
    refine ⟨x :: xs, w', ?_, .cons (hshows.keeps hextends'.toKeeps) ?_, hextends.trans hextends'⟩
    · rw [Cursor.mapAt, EStateM.run_bind, hnext]
      simpa using hrun
    · exact hall.imp fun _ _ hshows => hshows.since hextends.toKeeps.cells

end Cursor

namespace Run

variable {w : World} {v : Value} {c : Cursor} {els : List Element}

theorem run_cursor (h : w.cursor? v = some c) (name : String) (index : Nat) :
    (cursor name index v).run w = .ok c w := by
  rw [cursor, run_look_bind, h]
  rfl

/-- All elements of a sequence are taken at once. -/
theorem items_contents [Host] (h : w.contents? v = some els) (room : Room) (name : String)
    (index : Nat) :
    ∃ xs w', (items room name index v).run w = .ok xs w' ∧ World.ShowsAll w w' els xs ∧
      w.Extends w' := by
  obtain ⟨c, hcursor, hwalks, hlength⟩ := Cursor.walks_of_contents? h
  obtain ⟨xs, w', hrun, hshows, hextends⟩ := hwalks.mapAt (.refl w v) room hlength []
  have hlist : (c.toList room).run w = .ok xs w' := by
    rw [Cursor.toList, Cursor.map, run_look_bind]
    exact hrun
  cases v with
  | cell r =>
    obtain ⟨cells, hspine, rfl⟩ := World.contents?_cell h
    refine ⟨cells.map (·.car), w, ?_, World.showsAll_map _ _, .refl w⟩
    unfold items
    dsimp only
    rw [EStateM.run_bind, spine, run_lookOrStop, hspine]
    rfl
  | _ =>
    refine ⟨xs, w', ?_, hshows, hextends⟩
    unfold items
    dsimp only
    rw [EStateM.run_bind, run_cursor hcursor]
    dsimp only
    rw [run_tryCatch, hlist]

end Run

end TemplateLisp
