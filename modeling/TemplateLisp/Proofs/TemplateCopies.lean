import TemplateLisp.Proofs.TemplateSteps
import TemplateLisp.Host.Sample

/-!
# Copying templates

Copying follows the tree of a template (`Copying.copied`): there is a lemma for each kind of part,
and the walk along a list, the elements of a vector and the entries of a map are copied by one that
goes on from what has been found before. So a copy is its tree with the contributions of the live
holes in their places, and the operands of these are all that is evaluated
(`Quasiquote.copy_fills_holes`).

The template is read while it is copied. An evaluation that changes the template makes a difference
to what is copied after it (`Quasiquote.copy_of_selfChanging`).
-/

namespace TemplateLisp

/-! ## Parts of templates -/

/-- The values that a part of a template is made of. -/
def TemplatePart.values : TemplatePart → List Value
  | value v | rest v => [v]
  | elements vs => vs
  | entries es => es.map (·.2)

namespace Copying

variable {c : Copying} {s s' : Reserve} {w w' : World} {v : Value}

/-- A place in the middle of copying: the site that has been come to, the markers around and the
level of nesting. -/
structure At (c : Copying) (inner : Site) (around : List Marker) (nesting : Nat) (s : Reserve)
    (w : World) : Prop extends c.Holds s w where
  within : c.site.Within inner
  level : Marker.AtLevel around nesting

/-- With the bound on the number of steps, the part is copied: the run has the holes of its tree,
and the copy is the tree with their contributions. A splice that is an element of something does not
come here by itself (`element`). -/
def Copied (c : Copying) (e : Evaluator) (bound : Nat) : TemplatePart → Template → Prop
  | .value v, t => ∀ ⦃n inner around nesting s w⦄ element, bound ≤ n →
    c.At inner around nesting s w →
    (element = true → nesting = 0 → c.world.operand? Marker.splicing.name v = none) →
    c.Runs e (c.Produced s w World.InRange fun found y u => u.Fills around t found (.value y)) w
      (t.holes around element) (Quasiquote.copy e n inner nesting v)
  | .rest v, t => ∀ ⦃n k inner around nesting s w⦄ first before, bound ≤ n → bound ≤ k →
    c.At inner around nesting s w → c.world.operand? Marker.unquote.name (.cell first) = none →
    (∀ x ∈ before, w.InRange x) →
    c.Runs e (c.Produced s w World.InRange fun found y u =>
        ∃ rest, u.ListWithTail before.reverse rest y ∧ u.Fills around t found (.value rest)) w
      (t.holes around false)
      (Quasiquote.spine e inner nesting (Quasiquote.copy e n inner nesting) first k before v)
  | .elements vs, t => ∀ ⦃n k inner around nesting s w r⦄ earlier before, bound ≤ n → bound ≤ k →
    c.At inner around nesting s w → c.Includes (.vector r) → c.world.vector r = earlier ++ vs →
    (∀ xs ∈ before, ∀ x ∈ xs, w.InRange x) →
    c.Runs e (c.Produced s w (fun u yss => ∀ ys ∈ yss, ∀ y ∈ ys, u.InRange y) fun found yss u =>
        ∃ zss, yss = before.reverse ++ zss ∧ u.Fills around t found (.elements zss.flatten)) w
      (t.holes around false)
      (Run.mapVectorAt (Quasiquote.element e inner nesting (Quasiquote.copy e n inner nesting)) r k
        earlier.length before)
  | .entries es, t => ∀ ⦃n inner around nesting s w r⦄ earlier before, bound ≤ n →
    c.At inner around nesting s w → c.Includes (.map r) → c.world.entries r = earlier ++ es →
    (∀ x ∈ before, w.InRange x.1 ∧ w.InRange x.2) →
    c.Runs e (c.Produced s w (fun u ys => ∀ y ∈ ys, u.InRange y.1 ∧ u.InRange y.2) fun found ys u =>
        ∃ zs, ys = before.reverse ++ zs ∧ u.Fills around t found (.entries zs)) w
      (t.holes around false)
      (Run.mapEntriesAt (Quasiquote.copy e n inner nesting) r (earlier.length + es.length) es.length
        before)

section
variable {e : Evaluator} {t row inner : Template} {r : CellRef} {x : Value} {bound bound' : Nat}

theorem At.later {site : Site} {around : List Marker} {nesting : Nat}
    (h : c.At site around nesting s w) (hprogress : c.Progress s w s' w') :
    c.At site around nesting s' w' := ⟨hprogress.holds, h.within, h.level⟩

theorem At.inRange {site : Site} {around : List Marker} {nesting : Nat}
    (h : c.At site around nesting s w) (hc : c.Sound) (hv : c.Includes v) : w.InRange v :=
  (hc.sound.includes hc.template hv).mono h.grows

theorem Copied.leaf (hc : c.Sound) (hv : c.Includes v) (hleaf : v.isLeaf = true) :
    c.Copied e 1 (.value v) (.atom v) := by
  intro n site around nesting s w element hn hat _
  obtain ⟨n, rfl⟩ : ∃ m, n = m + 1 := ⟨n - 1, by omega⟩
  have hcopy : (Quasiquote.copy e (n + 1) site nesting v).run w = .ok v w := by
    cases v with
    | cell | vector | map => cases hleaf
    | _ => rfl
  exact .make hcopy (.refl w)
    ⟨s, hat.progress, hat.inRange hc hv, fun _ _ _ => .atom v⟩

theorem Copied.marked (hc : c.Sound) (he : e.LeavesReserves) {m : Marker} (hv : c.Includes v)
    (hform : c.world.operand? m.name v = some x) (h : c.Copied e bound (.value x) inner) :
    c.Copied e (bound + 1) (.value v) (.marked m x inner) := by
  intro n site around nesting s w element hn hat helement
  obtain ⟨n, rfl⟩ : ∃ m, n = m + 1 := ⟨n - 1, by omega⟩
  have hx : c.Includes x := hv.trans (World.includes_operand hform)
  have hhere : w.operand? m.name v = some x := (hat.kept.operand? hv m.name).trans hform
  obtain ⟨r, q, rfl, -⟩ := World.operand?_eq_some hhere
  cases hlive : m.live around with
  | true =>
    obtain ⟨hhole, hnesting⟩ : m.isHole = true ∧ nesting = 0 := by
      simpa [hat.level.live_eq] using hlive
    subst hnesting
    rw [Template.holes_live x inner hlive]
    cases m with
    | quasiquote => cases hhole
    | unquote =>
      refine runs_unquote hat.within hhere fun site hsite => ?_
      refine (hat.unquote (o := ⟨.unquote, around, x, element⟩) hc he hsite hx rfl).mono ?_
      rintro found w' y ⟨s', hprogress, hy, hlast⟩
      refine ⟨s', hprogress, hy, fun u hsame hgrows => ?_⟩
      rw [hlast u hsame hgrows]
      exact .hole y hlive
    | splicing =>
      refine runs_misplaced hat.within hhere ⟨rfl, ?_⟩
      rw [← Bool.not_eq_true]
      intro helem
      have hnone := helement helem rfl
      rw [hform] at hnone
      cases hnone
  | false =>
    rw [Template.holes_marked x inner hlive, ← List.append_nil (inner.holes _ _)]
    refine runs_marked hat.within hhere (fun hhole hzero => ?_) fun site hsite => ?_
    · simp [hat.level.live_eq, hhole, hzero] at hlive
    · have hinner : c.At site (m :: around) (m.inside nesting) s w :=
        ⟨hat.toHolds, hsite, hat.level.inside hlive⟩
      refine (h false (by omega) hinner (absurd · Bool.false_ne_true)).bind ?_
      rintro found w₁ y ⟨s₁, hprogress, hy, hlast⟩
      refine (hprogress.holds.listWithTail hc [.sym ⟨m.name⟩, y] .nil ?_ trivial).mono ?_
      · rintro z (_ | ⟨_, _ | ⟨_, hz⟩⟩)
        · trivial
        · exact hy
        · cases hz
      · rintro found' w₂ z hz
        refine hz.after hprogress hlast ?_
        rintro u hfills ⟨rfl, hlist⟩
        rw [List.append_nil]
        exact .marked hlive hfills hlist

theorem Copied.list (hv : c.Includes (.cell r))
    (hplain : ∀ m : Marker, c.world.operand? m.name (.cell r) = none)
    (h : c.Copied e bound (.rest (.cell r)) (.pair t row)) :
    c.Copied e (bound + 1) (.value (.cell r)) (.pair t row) := by
  intro n site around nesting s w element hn hat _
  obtain ⟨n, rfl⟩ : ∃ m, n = m + 1 := ⟨n - 1, by omega⟩
  have hnone (m : Marker) : w.operand? m.name (.cell r) = none :=
    (hat.kept.operand? hv m.name).trans (hplain m)
  rw [Runs, Quasiquote.copy]
  refine .deeper hat.within fun site hsite => ?_
  rw [Run.run_look_bind, show w.operand? "unquote" _ = _ from hnone .unquote, Run.run_look_bind,
    show w.operand? "unquote-splicing" _ = _ from hnone .splicing, Run.run_look_bind,
    show w.operand? "quasiquote" _ = _ from hnone .quasiquote]
  refine (h r [] (by omega) (show bound ≤ n by omega) ⟨hat.toHolds, hsite, hat.level⟩
    (hplain .unquote) (List.forall_mem_nil _)).mono ?_
  rintro found w' y ⟨s', hprogress, hy, hlast⟩
  refine ⟨s', hprogress, hy, fun u hsame hgrows => ?_⟩
  obtain ⟨rest, rfl, hfills⟩ := hlast u hsame hgrows
  exact hfills

theorem Copied.vector (hc : c.Sound) {r : VectorRef} (hv : c.Includes (.vector r))
    (h : c.Copied e bound (.elements (c.world.vector r)) row) :
    c.Copied e (bound + 1) (.value (.vector r)) (.vector row) := by
  intro n site around nesting s w element hn hat _
  obtain ⟨n, rfl⟩ : ∃ m, n = m + 1 := ⟨n - 1, by omega⟩
  rw [Template.holes_vector, Runs, Quasiquote.copy, ← List.append_nil (row.holes _ _)]
  refine .deeper hat.within fun site hsite => ?_
  rw [Quasiquote.elements, bind_assoc]
  simp only [pure_bind]
  refine (h [] [] (Nat.le_of_succ_le_succ hn) (Nat.le_of_succ_le_succ hn)
    ⟨hat.toHolds, hsite, hat.level⟩ hv rfl (List.forall_mem_nil _)).bind ?_
  rintro found w₁ yss ⟨s₁, hprogress, hyss, hlast⟩
  refine (hprogress.holds.vector hc fun y hy => ?_).mono ?_
  · obtain ⟨ys, hys, hy⟩ := List.mem_flatten.1 hy
    exact hyss ys hys y hy
  · rintro found' w₂ y hy
    refine hy.after hprogress hlast ?_
    rintro u ⟨zss, rfl, hfills⟩ ⟨rfl, r, rfl, hr⟩
    rw [List.append_nil]
    exact .vector (hr ▸ hfills)

theorem Copied.map (hc : c.Sound) {r : MapRef} (hv : c.Includes (.map r))
    (h : c.Copied e bound (.entries (c.world.entries r)) row) :
    c.Copied e (bound + 1) (.value (.map r)) (.map row) := by
  intro n site around nesting s w element hn hat _
  obtain ⟨n, rfl⟩ : ∃ m, n = m + 1 := ⟨n - 1, by omega⟩
  have hentries : w.entries r = c.world.entries r := hat.kept.entries hv
  rw [Template.holes_map, Runs, Quasiquote.copy, ← List.append_nil (row.holes _ _)]
  refine .deeper hat.within fun site hsite => ?_
  rw [Run.mapEntries, Run.run_look_bind, hentries]
  have hcopied := h [] [] (Nat.le_of_succ_le_succ hn) ⟨hat.toHolds, hsite, hat.level⟩ hv rfl
    (List.forall_mem_nil _)
  rw [List.length_nil, Nat.zero_add] at hcopied
  refine hcopied.bind ?_
  rintro found w₁ ys ⟨s₁, hprogress, hys, hlast⟩
  refine (hprogress.holds.map hc hys).mono ?_
  rintro found' w₂ y hy
  refine hy.after hprogress hlast ?_
  rintro u ⟨zs, rfl, hfills⟩ ⟨rfl, r, rfl, hr⟩
  rw [List.append_nil]
  exact .map (hr ▸ hfills)

/-- An element is copied, or it is a live splice. -/
theorem Copied.element (hc : c.Sound) (he : e.LeavesReserves) (hv : c.Includes v)
    (hshape : c.world.HasShape (.value v) t) (h : c.Copied e bound (.value v) t) {n nesting : Nat}
    {site : Site} {around : List Marker} (hn : bound ≤ n) (hat : c.At site around nesting s w) :
    c.Runs e (c.Produced s w (fun u vs => ∀ v ∈ vs, u.InRange v) fun found vs u =>
        u.Fills around t found (.element vs)) w (t.holes around true)
      (Quasiquote.element e site nesting (Quasiquote.copy e n site nesting) v) := by
  have hform : w.operand? "unquote-splicing" v = c.world.operand? Marker.splicing.name v :=
    hat.kept.operand? hv _
  have hcopy (hplain : nesting = 0 → c.world.operand? Marker.splicing.name v = none) :
      c.Runs e (c.Produced s w (fun u vs => ∀ v ∈ vs, u.InRange v) fun found vs u =>
        u.Fills around t found (.element vs)) w (t.holes around true)
      (Quasiquote.copy e n site nesting v >>= fun y => pure [y]) := by
    rw [← List.append_nil (t.holes _ _)]
    refine (h true hn hat fun _ => hplain).bind ?_
    rintro found w₁ y ⟨s₁, hprogress, hy, hlast⟩
    refine .make rfl (.refl w₁) ⟨s₁, hprogress, by simpa using hy, fun u hsame hgrows => ?_⟩
    rw [List.append_nil]
    exact .one (hlast u hsame hgrows)
  rw [Runs, Quasiquote.element, Run.run_look_bind, hform]
  cases nesting with
  | succ d => exact hcopy (absurd · (Nat.succ_ne_zero d))
  | zero =>
    cases hsplice : c.world.operand? Marker.splicing.name v with
    | none => exact hcopy fun _ => hsplice
    | some x =>
      obtain ⟨inner, rfl⟩ := hshape.marked_inv hsplice
      have hlive : Marker.splicing.live around = true := by rw [hat.level.live_eq]; rfl
      have hx : c.Includes x := hv.trans (World.includes_operand hsplice)
      rw [Template.holes_live x inner hlive]
      refine (hat.splice (o := ⟨.splicing, around, x, true⟩) hc he hat.within hx rfl rfl).mono ?_
      rintro found w' vs ⟨s', hprogress, hvs, hlast⟩
      refine ⟨s', hprogress, hvs, fun u hsame hgrows => ?_⟩
      rw [hlast u hsame hgrows]
      exact .splice vs hlive

theorem Copied.pair (hc : c.Sound) (he : e.LeavesReserves) (hv : c.Includes (.cell r))
    (hplain : c.world.operand? Marker.unquote.name (.cell r) = none)
    (hshape : c.world.HasShape (.value (c.world.cell r).car) t)
    (h : c.Copied e bound (.value (c.world.cell r).car) t)
    (h' : c.Copied e bound' (.rest (c.world.cell r).cdr) row) :
    c.Copied e (bound + bound' + 1) (.rest (.cell r)) (.pair t row) := by
  intro n k site around nesting s w first before hn hk hat hfirst hbefore
  obtain ⟨k, rfl⟩ : ∃ m, k = m + 1 := ⟨k - 1, by omega⟩
  have hnone : w.operand? "unquote" (.cell r) = none := (hat.kept.operand? hv _).trans hplain
  have hcar := (World.cell_of_components (hat.kept _ hv)).1
  rw [Runs, Quasiquote.spine, Run.run_look_bind, hnone, Template.holes_pair]
  rw [Option.isSome_none, Bool.false_and, if_neg Bool.false_ne_true, Run.run_look_bind, hcar]
  refine (Copied.element hc he (hv.tail List.mem_cons_self) hshape h (by omega) hat).bind ?_
  rintro found w₁ vs ⟨s₁, hprogress, hvs, hlast⟩
  have hcdr := (World.cell_of_components (hprogress.holds.kept _ hv)).2
  rw [Run.run_look_bind, hcdr]
  refine (h' first (vs.reverse ++ before) (by omega) (by omega) (hat.later hprogress)
    hfirst ?_).mono ?_
  · intro x hx
    rcases List.mem_append.1 hx with hx | hx
    · exact hvs x (List.mem_reverse.1 hx)
    · exact (hbefore x hx).mono hprogress.grows
  · rintro found' w₂ y hy
    refine hy.after hprogress hlast ?_
    rintro u hfills ⟨rest, hlist, hrest⟩
    rw [List.reverse_append, List.reverse_reverse, World.listWithTail_append] at hlist
    obtain ⟨y₀, hfront, hlist⟩ := hlist
    exact ⟨y₀, hfront, .pair hfills hrest hlist⟩

/-- The end of a list, or an unquote behind the dot. -/
theorem Copied.tail (hc : c.Sound) (hv : c.Includes v)
    (hstop : ∀ r, v = .cell r → (c.world.operand? Marker.unquote.name v).isSome = true)
    (h : c.Copied e bound (.value v) t) : c.Copied e (bound + 1) (.rest v) t := by
  intro n k site around nesting s w first before hn hk hat hfirst hbefore
  obtain ⟨n, rfl⟩ : ∃ m, n = m + 1 := ⟨n - 1, by omega⟩
  obtain ⟨k, rfl⟩ : ∃ m, k = m + 1 := ⟨k - 1, by omega⟩
  have hrun :
    (Quasiquote.spine e site nesting (Quasiquote.copy e (n + 1) site nesting) first (k + 1)
      before v).run w =
      (Quasiquote.copy e (n + 1) site nesting v >>= Run.listWithTail before.reverse).run w := by
    cases v with
    | cell r =>
      have hunquote := hstop r rfl
      have hne : r ≠ first := by
        rintro rfl
        rw [hfirst] at hunquote
        cases hunquote
      have hhole : (w.operand? "unquote" (.cell r)).isSome = true := by
        rw [show w.operand? "unquote" _ = _ from hat.kept.operand? hv _]
        exact hunquote
      rw [Quasiquote.spine, Run.run_look_bind, hhole, Bool.true_and, if_pos (decide_eq_true hne)]
    | _ => rfl
  rw [Runs, hrun, ← List.append_nil (t.holes _ _)]
  refine (h false (by omega) hat (absurd · Bool.false_ne_true)).bind ?_
  rintro found w₁ y ⟨s₁, hprogress, hy, hlast⟩
  refine (hprogress.holds.listWithTail hc before.reverse y ?_ hy).mono ?_
  · exact fun x hx => (hbefore x (List.mem_reverse.1 hx)).mono hprogress.grows
  · rintro found' w₂ z hz
    refine hz.after hprogress hlast ?_
    rintro u hfills ⟨rfl, hlist⟩
    rw [List.append_nil]
    exact ⟨y, hlist, hfills⟩

theorem Copied.noElements : c.Copied e 1 (.elements []) (.atom .nil) := by
  intro n k site around nesting s w r earlier before hn hk hat hr hvector hbefore
  obtain ⟨k, rfl⟩ : ∃ m, k = m + 1 := ⟨k - 1, by omega⟩
  have hsame : w.vector r = earlier ++ [] := (hat.kept _ hr).trans hvector
  have hrun :
    (Run.mapVectorAt (Quasiquote.element e site nesting (Quasiquote.copy e n site nesting)) r
      (k + 1) earlier.length before).run w = .ok before.reverse w := by
    rw [Run.mapVectorAt, Run.run_look_bind, hsame, List.append_nil,
      List.getElem?_eq_none (Nat.le_refl _)]
    rfl
  refine .make hrun (.refl w) ⟨s, hat.progress, fun ys hys =>
    hbefore ys (List.mem_reverse.1 hys), ?_⟩
  exact fun u _ _ => ⟨[], (List.append_nil _).symm, .noElements⟩

theorem Copied.elements {vs : List Value} (hc : c.Sound) (he : e.LeavesReserves) (hv : c.Includes v)
    (hshape : c.world.HasShape (.value v) t) (h : c.Copied e bound (.value v) t)
    (h' : c.Copied e bound' (.elements vs) row) :
    c.Copied e (bound + bound' + 1) (.elements (v :: vs)) (.pair t row) := by
  intro n k site around nesting s w r earlier before hn hk hat hr hvector hbefore
  obtain ⟨k, rfl⟩ : ∃ m, k = m + 1 := ⟨k - 1, by omega⟩
  have hat' : (w.vector r)[earlier.length]? = some v := by
    rw [show w.vector r = _ from (hat.kept _ hr).trans hvector,
      List.getElem?_append_right (Nat.le_refl _), Nat.sub_self]
    rfl
  rw [Runs, Run.mapVectorAt, Run.run_look_bind, hat', Template.holes_pair]
  refine (Copied.element hc he hv hshape h (by omega) hat).bind ?_
  rintro found w₁ ys ⟨s₁, hprogress, hys, hlast⟩
  have hcopied :=
    h' (earlier ++ [v]) (ys :: before) (show bound' ≤ n by omega) (show bound' ≤ k by omega)
    (hat.later hprogress) hr (by rw [hvector, List.append_assoc]; rfl) ?_
  · rw [List.length_append, List.length_singleton] at hcopied
    refine hcopied.mono ?_
    rintro found' w₂ zss hzss
    refine hzss.after hprogress hlast ?_
    rintro u hfills ⟨zss, rfl, hrest⟩
    rw [List.reverse_cons, List.append_assoc]
    exact ⟨ys :: zss, rfl, .elements hfills hrest⟩
  · rintro xs (_ | ⟨_, hxs⟩)
    · exact hys
    · exact fun x hx => (hbefore xs hxs x hx).mono hprogress.grows

theorem Copied.noEntries : c.Copied e 0 (.entries []) (.atom .nil) := by
  intro n site around nesting s w r earlier before hn hat hr hentries hbefore
  have hsame : w.entries r = earlier ++ [] := (hat.kept.entries hr).trans hentries
  have hrun : (Run.mapEntriesAt (Quasiquote.copy e n site nesting) r (earlier.length + 0) 0
      before).run w = .ok before.reverse w := by
    rw [Run.mapEntriesAt, Run.run_look_bind, hsame, if_neg (by simp)]
    rfl
  refine .make hrun (.refl w) ⟨s, hat.progress, fun y hy => hbefore y (List.mem_reverse.1 hy), ?_⟩
  exact fun u _ _ => ⟨[], (List.append_nil _).symm, .noEntries⟩

theorem Copied.entry {k : Value} {es : List (Value × Value)} (hc : c.Sound)
    (h : c.Copied e bound (.value v) t) (h' : c.Copied e bound' (.entries es) row) :
    c.Copied e (bound + bound') (.entries ((k, v) :: es)) (.entry k t row) := by
  intro n site around nesting s w r earlier before hn hat hr hentries hbefore
  have hsame : w.entries r = earlier ++ (k, v) :: es := (hat.kept.entries hr).trans hentries
  have hk : c.Includes k := by
    refine hr.tail (World.mem_components_key (e := (k, v)) ?_)
    rw [hentries]
    exact List.mem_append_right _ List.mem_cons_self
  have hentry : (w.entries r)[earlier.length + (es.length + 1) - (es.length + 1)]? =
    some (k, v) := by
    rw [hsame, Nat.add_sub_cancel, List.getElem?_append_right (Nat.le_refl _), Nat.sub_self]
    rfl
  rw [Runs, List.length_cons, Run.mapEntriesAt, Run.run_look_bind, if_neg (by simp [hsame])]
  dsimp only
  rw [hentry, Template.holes_entry]
  refine (h false (by omega) hat (absurd · Bool.false_ne_true)).bind ?_
  rintro found w₁ y ⟨s₁, hprogress, hy, hlast⟩
  have hcopied := h' (earlier ++ [(k, v)]) ((k, y) :: before) (show bound' ≤ n by omega)
    (hat.later hprogress) hr (by rw [hentries, List.append_assoc]; rfl) ?_
  · rw [List.length_append, List.length_singleton, Nat.add_assoc, Nat.add_comm 1] at hcopied
    refine hcopied.mono ?_
    rintro found' w₂ zs hzs
    refine hzs.after hprogress hlast ?_
    rintro u hfills ⟨zs, rfl, hrest⟩
    rw [List.reverse_cons, List.append_assoc]
    exact ⟨(k, y) :: zs, rfl, .entry hfills hrest⟩
  · rintro x (_ | ⟨_, hx⟩)
    · exact ⟨(hat.inRange hc hk).mono hprogress.grows, hy⟩
    · exact ⟨(hbefore x hx).1.mono hprogress.grows, (hbefore x hx).2.mono hprogress.grows⟩

end

/-- Every part of the template is copied. -/
theorem copied {part : TemplatePart} {t : Template} (hc : c.Sound) (h : c.world.HasShape part t)
    (hpart : ∀ v ∈ part.values, c.Includes v) :
    ∃ bound, ∀ e : Evaluator, e.LeavesReserves → c.Copied e bound part t := by
  have one {v : Value} (hv : c.Includes v) : ∀ x ∈ [v], c.Includes x :=
    fun x hx => List.mem_singleton.1 hx ▸ hv
  induction h with
  | @atom v leaf => exact ⟨1, fun e _ => .leaf hc (hpart v List.mem_cons_self) leaf⟩
  | @marked v x inner m form _ ih =>
    have hv : c.Includes v := hpart v List.mem_cons_self
    obtain ⟨bound, hx⟩ := ih (one (hv.trans (World.includes_operand form)))
    exact ⟨bound + 1, fun e he => .marked hc he hv form (hx e he)⟩
  | @list r t row plain _ ih =>
    obtain ⟨bound, hpairs⟩ := ih hpart
    exact ⟨bound + 1, fun e he => .list (hpart _ List.mem_cons_self) plain (hpairs e he)⟩
  | @vector r row _ ih =>
    have hv : c.Includes (.vector r) := hpart _ List.mem_cons_self
    obtain ⟨bound, hrow⟩ := ih fun x hx => hv.tail hx
    exact ⟨bound + 1, fun e he => .vector hc hv (hrow e he)⟩
  | @map r row _ ih =>
    have hv : c.Includes (.map r) := hpart _ List.mem_cons_self
    obtain ⟨bound, hrow⟩ := ih fun x hx => by
      obtain ⟨e, he, rfl⟩ := List.mem_map.1 hx
      exact hv.tail (World.mem_components_value he)
    exact ⟨bound + 1, fun e he => .map hc hv (hrow e he)⟩
  | @pair r t row plain first _ ih ih' =>
    have hv : c.Includes (.cell r) := hpart _ List.mem_cons_self
    obtain ⟨bound, hfirst⟩ := ih (one (hv.tail List.mem_cons_self))
    obtain ⟨bound', hlater⟩ := ih' (one (hv.tail (List.mem_cons_of_mem _ List.mem_cons_self)))
    exact ⟨bound + bound' + 1, fun e he => .pair hc he hv plain first (hfirst e he) (hlater e he)⟩
  | @tail v t stop _ ih =>
    obtain ⟨bound, hv⟩ := ih hpart
    exact ⟨bound + 1, fun e he => .tail hc (hpart v List.mem_cons_self) stop (hv e he)⟩
  | noElements => exact ⟨1, fun _ _ => .noElements⟩
  | @element v vs t row first _ ih ih' =>
    have hv : c.Includes v := hpart v List.mem_cons_self
    obtain ⟨bound, hfirst⟩ := ih (one hv)
    obtain ⟨bound', hlater⟩ := ih' fun x hx => hpart x (List.mem_cons_of_mem _ hx)
    exact ⟨bound + bound' + 1, fun e he => .elements hc he hv first (hfirst e he) (hlater e he)⟩
  | noEntries => exact ⟨0, fun _ _ => .noEntries⟩
  | @entry k v es t row _ _ ih ih' =>
    obtain ⟨bound, hv⟩ := ih (one (hpart v List.mem_cons_self))
    obtain ⟨bound', hlater⟩ := ih' fun x hx => hpart x (List.mem_cons_of_mem _ hx)
    exact ⟨bound + bound', fun e he => .entry hc (hv e he) (hlater e he)⟩

end Copying

/-! ## Whole templates -/

namespace Quasiquote

/-- A template without cycles has a tree. Copying it evaluates the operands of the holes in that
tree that are live, each of them once and from left to right, and stops at the first failure; if
there is none, the copy is the tree with the contributions of the holes in their places. This holds
as long as no evaluation of an operand changes the template. -/
theorem copy_fills_holes [Host] {w : World} {site : Site} {v : Value} (hsite : site.SoundIn w)
    (hv : w.InRange v) (hfounded : w.Founded v) :
    (∃ t, w.HasShape (.value v) t) ∧
    (∀ t, w.HasShape (.value v) t → ∃ bound, ∀ e : Evaluator, e.LeavesReserves → ∀ n, bound ≤ n →
      TemplateRun e site (w.SameInside v) (fun found w' y => w'.Fills [] t found (.value y)) w
        (t.holes [] false) ((copy e n site 0 v).run w)) ∧
    ∀ n, (evaluator n).LeavesReserves := by
  refine ⟨hfounded.hasShape, fun t ht => ?_, evaluator_leavesReserves⟩
  let c : Copying := ⟨w, v, site⟩
  have hc : c.Sound := ⟨hsite, hv⟩
  obtain ⟨bound, hcopied⟩ := Copying.copied hc ht fun x hx => List.mem_singleton.1 hx ▸ .refl
  refine ⟨bound, fun e he n hn => ?_⟩
  refine (hcopied e he false hn ⟨.start hc, .refl site, Marker.atLevel_nil⟩
    (absurd · Bool.false_ne_true)).mono ?_
  rintro found w' y ⟨s', -, -, hlast⟩
  exact hlast.now

/-! ### Two templates -/

/-- The root of a world, without macros and with nesting unbounded. -/
def rootSite : Site := ⟨⟨0⟩, ⟨0⟩, none, .unbounded⟩

/-- A world with the templates `(a ,(set-car! front 8) ,(set-car! back 9) b)`, where `front` is the
template and `back` its last pair, and, from the pair 14 on, `(,n ,@m (quasiquote ,n))`. -/
def twoTemplates : World :=
  { World.empty with
    cells := #[⟨.sym ⟨"a"⟩, .cell ⟨1⟩, none⟩, ⟨.cell ⟨4⟩, .cell ⟨2⟩, none⟩,
      ⟨.cell ⟨9⟩, .cell ⟨3⟩, none⟩, ⟨.sym ⟨"b"⟩, .nil, none⟩,
      ⟨.sym ⟨"unquote"⟩, .cell ⟨5⟩, none⟩, ⟨.cell ⟨6⟩, .nil, none⟩,
      ⟨.sym ⟨"set-car!"⟩, .cell ⟨7⟩, none⟩, ⟨.sym ⟨"front"⟩, .cell ⟨8⟩, none⟩, ⟨.int 8, .nil, none⟩,
      ⟨.sym ⟨"unquote"⟩, .cell ⟨10⟩, none⟩, ⟨.cell ⟨11⟩, .nil, none⟩,
      ⟨.sym ⟨"set-car!"⟩, .cell ⟨12⟩, none⟩, ⟨.sym ⟨"back"⟩, .cell ⟨13⟩, none⟩,
        ⟨.int 9, .nil, none⟩,
      ⟨.cell ⟨17⟩, .cell ⟨15⟩, none⟩, ⟨.cell ⟨19⟩, .cell ⟨16⟩, none⟩, ⟨.cell ⟨21⟩, .nil, none⟩,
      ⟨.sym ⟨"unquote"⟩, .cell ⟨18⟩, none⟩, ⟨.sym ⟨"n"⟩, .nil, none⟩,
      ⟨.sym ⟨"unquote-splicing"⟩, .cell ⟨20⟩, none⟩, ⟨.sym ⟨"m"⟩, .nil, none⟩,
      ⟨.sym ⟨"quasiquote"⟩, .cell ⟨22⟩, none⟩, ⟨.cell ⟨17⟩, .nil, none⟩]
    vectors := #[[.int 2, .int 3]]
    frames := #[⟨Bindings.ofNames [(⟨"front"⟩, .cell ⟨0⟩), (⟨"back"⟩, .cell ⟨3⟩),
      (⟨"set-car!"⟩, .builtin .setCar), (⟨"n"⟩, .int 1), (⟨"m"⟩, .vector ⟨0⟩)], none⟩] }

theorem twoTemplates_sound : rootSite.SoundIn twoTemplates := ⟨by decide, by decide⟩

/-- The tree of the second template. -/
def listingTree : Template :=
  .pair (.marked .unquote (.sym ⟨"n"⟩) (.atom (.sym ⟨"n"⟩))) <|
    .pair (.marked .splicing (.sym ⟨"m"⟩) (.atom (.sym ⟨"m"⟩))) <|
    .pair (.marked .quasiquote (.cell ⟨17⟩)
      (.marked .unquote (.sym ⟨"n"⟩) (.atom (.sym ⟨"n"⟩)))) (.atom .nil)

theorem hasShape_listingTree : twoTemplates.HasShape (.value (.cell ⟨14⟩)) listingTree := by
  have hunquote : twoTemplates.HasShape (.value (.cell ⟨17⟩))
      (.marked .unquote (.sym ⟨"n"⟩) (.atom (.sym ⟨"n"⟩))) := .marked .unquote rfl (.atom rfl)
  have hsplicing : twoTemplates.HasShape (.value (.cell ⟨19⟩))
      (.marked .splicing (.sym ⟨"m"⟩) (.atom (.sym ⟨"m"⟩))) := .marked .splicing rfl (.atom rfl)
  refine .list (fun m => by cases m <;> rfl) <| .pair rfl hunquote <| .pair rfl hsplicing <|
    .pair rfl ?_ ?_
  · exact .marked .quasiquote rfl hunquote
  · exact .tail nofun (.atom rfl)

open scoped SampleHost in
/-- In `(,n ,@m (quasiquote ,n))` the first unquote and the splice are evaluated, the second unquote
is not. -/
theorem copy_fills_holes_listing :
    rootSite.SoundIn twoTemplates ∧ twoTemplates.InRange (.cell ⟨14⟩) ∧
    twoTemplates.Founded (.cell ⟨14⟩) ∧ twoTemplates.HasShape (.value (.cell ⟨14⟩)) listingTree ∧
    ∃ bound, ∀ n, bound ≤ n →
      TemplateRun (evaluator n) rootSite (twoTemplates.SameInside (.cell ⟨14⟩))
        (fun found w y => w.Fills [] listingTree found (.value y)) twoTemplates
        [⟨.unquote, [], .sym ⟨"n"⟩, true⟩, ⟨.splicing, [], .sym ⟨"m"⟩, true⟩]
        ((copy (evaluator n) n rootSite 0 (.cell ⟨14⟩)).run twoTemplates) := by
  have hrange : twoTemplates.InRange (.cell ⟨14⟩) := by decide
  have hfounded : twoTemplates.Founded (.cell ⟨14⟩) := by
    have hdeep : twoTemplates.AtMostDeep 8 (.cell ⟨14⟩) := by decide
    exact hdeep.founded
  obtain ⟨-, hcopy, hevaluators⟩ := copy_fills_holes twoTemplates_sound hrange hfounded
  obtain ⟨bound, hbound⟩ := hcopy listingTree hasShape_listingTree
  exact ⟨twoTemplates_sound, hrange, hfounded, hasShape_listingTree, bound, fun n hn =>
    hbound (evaluator n) (hevaluators n) n hn⟩

/-- The tree of a call of `set-car!`. -/
def assignmentTree (name : String) (value : Nat) : Template :=
  .pair (.atom (.sym ⟨"set-car!"⟩))
    (.pair (.atom (.sym ⟨name⟩)) (.pair (.atom (.int value)) (.atom .nil)))

/-- The tree of the first template. -/
def selfChangingTree : Template :=
  .pair (.atom (.sym ⟨"a"⟩)) <| .pair (.marked .unquote (.cell ⟨6⟩) (assignmentTree "front" 8)) <|
    .pair (.marked .unquote (.cell ⟨11⟩) (assignmentTree "back" 9)) <|
    .pair (.atom (.sym ⟨"b"⟩)) (.atom .nil)

theorem hasShape_selfChangingTree :
    twoTemplates.HasShape (.value (.cell ⟨0⟩)) selfChangingTree := by
  have plain {i : Nat} (h : ∀ m ∈ [Marker.quasiquote, .unquote, .splicing],
      twoTemplates.operand? m.name (.cell ⟨i⟩) = none) (m : Marker) :
      twoTemplates.operand? m.name (.cell ⟨i⟩) = none := h m (by cases m <;> decide)
  have hnil : twoTemplates.HasShape (.rest .nil) (.atom .nil) := .tail nofun (.atom rfl)
  have hfirst : twoTemplates.HasShape (.value (.cell ⟨6⟩)) (assignmentTree "front" 8) :=
    .list (plain (by decide))
      (.pair rfl (.atom rfl) (.pair rfl (.atom rfl) (.pair rfl (.atom rfl) hnil)))
  have hsecond : twoTemplates.HasShape (.value (.cell ⟨11⟩)) (assignmentTree "back" 9) :=
    .list (plain (by decide))
      (.pair rfl (.atom rfl) (.pair rfl (.atom rfl) (.pair rfl (.atom rfl) hnil)))
  exact .list (plain (by decide)) <| .pair rfl (.atom rfl) <|
    .pair rfl (.marked .unquote rfl hfirst) <| .pair rfl (.marked .unquote rfl hsecond) <|
    .pair rfl (.atom rfl) hnil

/-- The world after the first template has been copied. -/
def selfChanged : World :=
  (((twoTemplates.setCar ⟨0⟩ (.int 8)).setCar ⟨3⟩ (.int 9)).addList
    [.sym ⟨"a"⟩, .int 8, .int 9, .int 9] .nil).2

theorem copy_selfChanging [Host] :
    Run.ComesTo (fun n => copy (evaluator n) n rootSite 0 (.cell ⟨0⟩)) twoTemplates
      (.ok (.cell ⟨26⟩) selfChanged) := by
  have hnine : (copy (evaluator 9) 9 rootSite 0 (.cell ⟨0⟩)).run twoTemplates =
      .ok (.cell ⟨26⟩) selfChanged := rfl
  exact .of_run (fun hnm => copy_below (evaluator_below hnm) hnm _ _ _) hnine nofun

/-- The copy of a list begins with the copy of its first element, unless that is a splice. -/
theorem fills_pair_inv {w : World} {around : List Marker} {t row : Template}
    {found : List (List Value)} {v : Value} (h : w.Fills around (.pair t row) found (.value v))
    (ht : ∀ x inner, t ≠ .marked .splicing x inner) :
    ∃ r found' found'', v = .cell r ∧ w.Fills around t found' (.value (w.cell r).car) ∧
      w.Fills around row found'' (.value (w.cell r).cdr) := by
  cases h with
  | pair first rest list =>
    cases first with
    | one value =>
      obtain ⟨r, rfl, rfl, rfl⟩ := list
      exact ⟨r, _, _, rfl, value, rest⟩
    | splice => exact absurd rfl (ht _ _)

open scoped SampleHost in
/-- A template that changes while it is copied need not come out as it was. The copy of the first
template does not end with the element that the template ended with. -/
theorem copy_of_selfChanging :
    rootSite.SoundIn twoTemplates ∧ twoTemplates.InRange (.cell ⟨0⟩) ∧
    twoTemplates.Founded (.cell ⟨0⟩) ∧
    twoTemplates.HasShape (.value (.cell ⟨0⟩)) selfChangingTree ∧
    ¬ ∃ bound, ∀ n, bound ≤ n →
      TemplateRun (evaluator n) rootSite (fun _ => True)
        (fun found w y => w.Fills [] selfChangingTree found (.value y)) twoTemplates
        (selfChangingTree.holes [] false)
        ((copy (evaluator n) n rootSite 0 (.cell ⟨0⟩)).run twoTemplates) := by
  have hdeep : twoTemplates.AtMostDeep 12 (.cell ⟨0⟩) := by decide
  refine ⟨twoTemplates_sound, by decide, hdeep.founded, hasShape_selfChangingTree, ?_⟩
  rintro ⟨bound, h⟩
  obtain ⟨-, enough, henough⟩ := copy_selfChanging
  have hrun := h (bound + enough) (by omega)
  rw [henough (bound + enough) (by omega)] at hrun
  obtain ⟨found, -, hfills⟩ := hrun.ok_inv fun _ => trivial
  -- along the copy to its last pair
  have next {i j : Nat} {t row : Template} {found : List (List Value)}
      (h : selfChanged.Fills [] (.pair t row) found (.value (.cell ⟨i⟩)))
      (ht : ∀ x inner, t ≠ .marked .splicing x inner)
      (hj : (selfChanged.cell ⟨i⟩).cdr = .cell ⟨j⟩) :
      ∃ found, selfChanged.Fills [] row found (.value (.cell ⟨j⟩)) := by
    obtain ⟨r, found', found'', hr, -, hrest⟩ := fills_pair_inv h ht
    cases hr
    exact ⟨found'', hj ▸ hrest⟩
  obtain ⟨found, hfills⟩ := next hfills nofun (j := 25) rfl
  obtain ⟨found, hfills⟩ := next hfills nofun (j := 24) rfl
  obtain ⟨found, hfills⟩ := next hfills nofun (j := 23) rfl
  obtain ⟨r, found', -, hr, hlast, -⟩ := fills_pair_inv hfills nofun
  cases hr
  have hb : (selfChanged.cell ⟨23⟩).car = .sym ⟨"b"⟩ := by
    generalize (selfChanged.cell ⟨23⟩).car = v at hlast
    cases hlast
    rfl
  exact absurd hb (by decide)

end Quasiquote

end TemplateLisp
