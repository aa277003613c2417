import TemplateLisp.Proofs.Templates

/-!
# What copying a template comes to

A run with holes (`TemplateRun`) evaluates the operands of the holes one after the other, from left
to right and each of them once, and stops at the first failure. In between it makes new objects
only. What it gives depends on what each hole contributes: an unquote its value, a splice the
elements of its value. Runs one after the other have the holes of both (`TemplateRun.bind`).

A copy is the template with the contributions in the places of the holes (`World.Fills`).
-/

namespace TemplateLisp

namespace World

variable {w : World} {v tail : Value} {items : List Value}

theorem listWithTail_append {later : List Value} : w.ListWithTail (items ++ later) tail v ↔
    ∃ u, w.ListWithTail items u v ∧ w.ListWithTail later tail u := by
  induction items generalizing v with
  | nil => exact ⟨fun h => ⟨v, rfl, h⟩, fun ⟨u, hu, h⟩ => hu ▸ h⟩
  | cons item items ih =>
    constructor
    · rintro ⟨r, rfl, hcar, hcdr⟩
      obtain ⟨u, hu, hlater⟩ := ih.1 hcdr
      exact ⟨u, ⟨r, rfl, hcar, hu⟩, hlater⟩
    · rintro ⟨u, ⟨r, rfl, hcar, hu⟩, hlater⟩
      exact ⟨r, rfl, hcar, ih.2 ⟨u, hu, hlater⟩⟩

variable (w) in
/-- The value contributes the elements to a list that it is spliced into. -/
inductive Splices : Value → List Value → Prop where
  | list {v : Value} {items : List Value} (list : w.ListOf v items) : Splices v items
  | vector (r : VectorRef) : Splices (.vector r) (w.vector r)
  | tuple (r : TupleRef) : Splices (.tuple r) (w.tuple r)

theorem Splices.inRange (h : w.Splices v items) (hw : w.Sound) (hv : w.InRange v) :
    ∀ x ∈ items, w.InRange x := by
  cases h with
  | list hlist => exact hlist.inRange hw hv
  | vector r => exact hw.held (.vector r)
  | tuple r => exact hw.held (.tuple r)

variable (w) in
/-- Why the value cannot be spliced: it is no list or vector, or it is a list that does not end in
`nil`. -/
inductive SplicesNot (room : Room) : Value → Stop → Prop where
  | noList {v : Value} (nil : v ≠ .nil) (cell : ∀ r, v ≠ .cell r) (vector : ∀ r, v ≠ .vector r)
      (tuple : ∀ r, v ≠ .tuple r) :
      SplicesNot room v (.ofFault (.type (.spliceNotList (w.typeName v))))
  | improper {r : CellRef} {s : Stop} (none : ∀ items, ¬ w.ListOf (.cell r) items)
      (stop : (Run.properItems room (.cell r)).run w = .error s w) : SplicesNot room (.cell r) s

end World

/-- The stop of a list that is walked to its end tells that it has none or is dotted. -/
theorem Run.properItems_cases (room : Room) (r : CellRef) (w : World) :
    (∃ items, w.ListOf (.cell r) items ∧ (properItems room (.cell r)).run w = .ok items w) ∨
    ∃ s, (∀ items, ¬ w.ListOf (.cell r) items) ∧
      (properItems room (.cell r)).run w = .error s w := by
  rw [properItems, EStateM.run_bind, spine, run_lookOrStop]
  cases hspine : w.spine? (.cell r) with
  | none =>
    refine .inr ⟨.endless, ?_, rfl⟩
    rintro items ⟨cells, h, -⟩
    rw [hspine] at h
    cases h
  | some found =>
    obtain ⟨cells, tail⟩ := found
    by_cases htail : tail = .nil
    · subst htail
      exact .inl ⟨_, ⟨cells, hspine, rfl⟩, rfl⟩
    · have hnone (items : List Value) : ¬ w.ListOf (.cell r) items := by
        rintro ⟨cells', h, -⟩
        rw [hspine] at h
        exact htail (Prod.mk.inj (Option.some.inj h)).2
      dsimp only
      rw [if_neg htail, World.run_improperList]
      cases w.readableText room (.cell r) with
      | ok text => exact .inr ⟨_, hnone, rfl⟩
      | error s => exact .inr ⟨s, hnone, rfl⟩

/-- Splicing gives the elements of a value or tells why there are none. -/
theorem Quasiquote.spliced_cases (room : Room) (v : Value) (w : World) :
    (∃ items, w.Splices v items ∧ (spliced room v).run w = .ok items w) ∨
    ∃ s, w.SplicesNot room v s ∧ (spliced room v).run w = .error s w := by
  cases v with
  | nil => exact .inl ⟨[], .list (.nil w), rfl⟩
  | vector r => exact .inl ⟨_, .vector r, rfl⟩
  | tuple r => exact .inl ⟨_, .tuple r, rfl⟩
  | cell r =>
    rcases Run.properItems_cases room r w with ⟨items, hlist, hrun⟩ | ⟨s, hnone, hrun⟩
    · exact .inl ⟨items, .list hlist, hrun⟩
    · exact .inr ⟨s, .improper hnone hrun, hrun⟩
  | _ => exact .inr ⟨_, .noList nofun nofun nofun nofun, rfl⟩

/-! ## Runs with holes -/

/-- The second site is the first one with some of its room used up. -/
structure Site.Within (site inner : Site) : Prop where
  eq : { site with room := inner.room } = inner
  unbounded : site.room = .unbounded → inner.room = .unbounded

theorem Site.Within.refl (site : Site) : site.Within site := ⟨rfl, id⟩

theorem Site.Within.env {site inner : Site} (h : site.Within inner) : inner.env = site.env := by
  rw [← h.eq]

/-- There is nothing that the elements of the value could be spliced into. -/
def Occurrence.Misplaced (o : Occurrence) : Prop := o.marker = .splicing ∧ o.element = false

/-- The values that a hole contributes if the value of its operand is `x`. -/
inductive Occurrence.Contributes (o : Occurrence) (w : World) (x : Value) : List Value → Prop where
  | value (unquote : o.marker = .unquote) : Contributes o w x [x]
  | elements {items : List Value} (splicing : o.marker = .splicing) (splices : w.Splices x items) :
      Contributes o w x items

/-- How a run goes that has holes. It makes new objects and evaluates the operand of one hole after
the other, until one of them fails. What it gives has the property `Q` for the contributions of the
holes. Nothing is said of what happens once an evaluation has left a world that does not satisfy
`stands`, and without room for nesting the run may stop at any point. -/
inductive TemplateRun (e : Evaluator) (site : Site) (stands : World → Prop) {α : Type} :
    (Q : List (List Value) → World → α → Prop) → World → List Occurrence →
      EStateM.Result Stop World α → Prop where
  | done {Q : List (List Value) → World → α → Prop} {w w' : World} {a : α} (made : w.Extends w')
      (gives : Q [] w' a) : TemplateRun e site stands Q w [] (.ok a w')
  | next {Q : List (List Value) → World → α → Prop} {w w₁ w₂ : World} {inner : Site}
      {o : Occurrence} {os : List Occurrence} {x : Value} {vs : List Value}
      {r : EStateM.Result Stop World α} (made : w.Extends w₁) (within : site.Within inner)
      (placed : ¬ o.Misplaced) (value : (e.value inner o.operand).run w₁ = .ok x w₂)
      (kept : stands w₂) (contributes : o.Contributes w₂ x vs)
      (rest : TemplateRun e site stands (fun found => Q (vs :: found)) w₂ os r) :
      TemplateRun e site stands Q w (o :: os) r
  | misplaced {Q : List (List Value) → World → α → Prop} {w w₁ : World} {o : Occurrence}
      {os : List Occurrence} (made : w.Extends w₁) (misplaced : o.Misplaced) :
      TemplateRun e site stands Q w (o :: os) (.error (.ofFault (.form .spliceOutsideList)) w₁)
  | stops {Q : List (List Value) → World → α → Prop} {w w₁ w₂ : World} {inner : Site}
      {o : Occurrence} {os : List Occurrence} {s : Stop} (made : w.Extends w₁)
      (within : site.Within inner) (placed : ¬ o.Misplaced)
      (value : (e.value inner o.operand).run w₁ = .error s w₂) :
      TemplateRun e site stands Q w (o :: os) (.error s w₂)
  | splicesNot {Q : List (List Value) → World → α → Prop} {w w₁ w₂ : World} {inner : Site}
      {o : Occurrence} {os : List Occurrence} {x : Value} {s : Stop} (made : w.Extends w₁)
      (within : site.Within inner) (splicing : o.marker = .splicing) (placed : ¬ o.Misplaced)
      (value : (e.value inner o.operand).run w₁ = .ok x w₂)
      (splicesNot : w₂.SplicesNot inner.room x s) :
      TemplateRun e site stands Q w (o :: os) (.error s w₂)
  | changed {Q : List (List Value) → World → α → Prop} {w w₁ w₂ : World} {inner : Site}
      {o : Occurrence} {os : List Occurrence} {x : Value} {r : EStateM.Result Stop World α}
      (made : w.Extends w₁) (within : site.Within inner) (placed : ¬ o.Misplaced)
      (value : (e.value inner o.operand).run w₁ = .ok x w₂) (changed : ¬ stands w₂) :
      TemplateRun e site stands Q w (o :: os) r
  | noRoom {Q : List (List Value) → World → α → Prop} {w w₁ : World} {os : List Occurrence}
      (bounded : site.room ≠ .unbounded) (made : w.Extends w₁) :
      TemplateRun e site stands Q w os (.error .tooDeep w₁)

namespace TemplateRun

variable {e : Evaluator} {site : Site} {stands : World → Prop} {α β : Type}
  {Q : List (List Value) → World → α → Prop} {w w₁ : World} {os : List Occurrence}
  {r : EStateM.Result Stop World α}

/-- Objects may be made first. -/
theorem after (hw : w.Extends w₁) (h : TemplateRun e site stands Q w₁ os r) :
    TemplateRun e site stands Q w os r := by
  cases h with
  | done made gives => exact .done (hw.trans made) gives
  | next made within placed value kept contributes rest =>
    exact .next (hw.trans made) within placed value kept contributes rest
  | misplaced made misplaced => exact .misplaced (hw.trans made) misplaced
  | stops made within placed value => exact .stops (hw.trans made) within placed value
  | splicesNot made within splicing placed value none =>
    exact .splicesNot (hw.trans made) within splicing placed value none
  | changed made within placed value changed =>
    exact .changed (hw.trans made) within placed value changed
  | noRoom bounded made => exact .noRoom bounded (hw.trans made)

/-- A run is followed by another one, which starts with what the first one gives, unless
that stops. -/
theorem follow {Q' : List (List Value) → World → β → Prop} {os' : List Occurrence} {f : α → Run β}
    {r' : EStateM.Result Stop World β} (h : TemplateRun e site stands Q w os r)
    (hok : ∀ a w', r = .ok a w' → r' = (f a).run w')
    (herror : ∀ s w', r = .error s w' → r' = .error s w')
    (hf : ∀ found w' a, Q found w' a →
      TemplateRun e site stands (fun found' => Q' (found ++ found')) w' os' ((f a).run w')) :
    TemplateRun e site stands Q' w (os ++ os') r' := by
  induction h generalizing Q' with
  | done made gives =>
    rw [hok _ _ rfl]
    exact (hf _ _ _ gives).after made
  | next made within placed value kept contributes _ ih =>
    exact .next made within placed value kept contributes
      (ih hok herror fun found w' a ha => hf (_ :: found) w' a ha)
  | misplaced made misplaced =>
    rw [herror _ _ rfl]
    exact .misplaced made misplaced
  | stops made within placed value =>
    rw [herror _ _ rfl]
    exact .stops made within placed value
  | splicesNot made within splicing placed value none =>
    rw [herror _ _ rfl]
    exact .splicesNot made within splicing placed value none
  | changed made within placed value changed => exact .changed made within placed value changed
  | noRoom bounded made =>
    rw [herror _ _ rfl]
    exact .noRoom bounded made

theorem bind {Q' : List (List Value) → World → β → Prop} {os' : List Occurrence} {x : Run α}
    {f : α → Run β} (hx : TemplateRun e site stands Q w os (x.run w))
    (hf : ∀ found w' a, Q found w' a →
      TemplateRun e site stands (fun found' => Q' (found ++ found')) w' os' ((f a).run w')) :
    TemplateRun e site stands Q' w (os ++ os') ((x >>= f).run w) := by
  rw [EStateM.run_bind]
  refine hx.follow (fun a w' ha => ?_) (fun s w' hs => ?_) hf
  · rw [ha]
  · rw [hs]

theorem mono {Q' : List (List Value) → World → α → Prop} (h : TemplateRun e site stands Q w os r)
    (hQ : ∀ found w' a, Q found w' a → Q' found w' a) : TemplateRun e site stands Q' w os r := by
  induction h generalizing Q' with
  | done made gives => exact .done made (hQ _ _ _ gives)
  | next made within placed value kept contributes _ ih =>
    exact .next made within placed value kept contributes (ih fun found => hQ (_ :: found))
  | misplaced made misplaced => exact .misplaced made misplaced
  | stops made within placed value => exact .stops made within placed value
  | splicesNot made within splicing placed value none =>
    exact .splicesNot made within splicing placed value none
  | changed made within placed value changed => exact .changed made within placed value changed
  | noRoom bounded made => exact .noRoom bounded made

/-- If the template stands throughout, a run that gives something has a contribution of
each hole. -/
theorem ok_inv {a : α} {w' : World} (h : TemplateRun e site stands Q w os (.ok a w'))
    (hstands : ∀ w, stands w) : ∃ found, found.length = os.length ∧ Q found w' a := by
  generalize hr : EStateM.Result.ok a w' = r at h
  induction h with
  | done made gives =>
    cases hr
    exact ⟨[], rfl, gives⟩
  | next made within placed value kept contributes _ ih =>
    obtain ⟨found, hlength, hgives⟩ := ih hr
    exact ⟨_ :: found, congrArg (· + 1) hlength, hgives⟩
  | changed made within placed value changed => exact absurd (hstands _) changed
  | _ => cases hr

/-- A run that makes new objects and has no holes. -/
theorem make {x : Run α} {a : α} (hx : x.run w = .ok a w₁) (hw : w.Extends w₁) (ha : Q [] w₁ a) :
    TemplateRun e site stands Q w [] (x.run w) := by
  rw [hx]
  exact .done hw ha

/-- A run goes on one level further down if there is room. -/
theorem deeper {inner : Site} (hinner : site.Within inner) {f : Site → Run α}
    (hf : ∀ inner, site.Within inner → TemplateRun e site stands Q w os ((f inner).run w)) :
    TemplateRun e site stands Q w os ((inner.deeper >>= f).run w) := by
  rw [Site.deeper]
  cases hroom : inner.room.enter? with
  | some room =>
    refine hf { inner with room := room } ⟨by rw [← hinner.eq], fun h => ?_⟩
    rw [hinner.unbounded h] at hroom
    exact (Option.some.inj hroom).symm
  | none =>
    refine .noRoom (fun h => ?_) (.refl w)
    rw [hinner.unbounded h] at hroom
    cases hroom

end TemplateRun

/-! ## Copies -/

/-- What the copy of a part of a template is: a value, the values that an element contributes, the
elements of a vector, or the entries of a map. -/
inductive TemplateCopy where
  | value (v : Value)
  | element (vs : List Value)
  | elements (vs : List Value)
  | entries (es : List (Value × Value))

/-- The copy is the template with the contributions of its holes in their places. -/
inductive World.Fills (w : World) :
    List Marker → Template → List (List Value) → TemplateCopy → Prop where
  | atom {around : List Marker} (v : Value) : Fills w around (.atom v) [] (.value v)
  | hole {around : List Marker} {x : Value} {inner : Template} (v : Value)
      (live : Marker.unquote.live around = true) :
      Fills w around (.marked .unquote x inner) [[v]] (.value v)
  | marked {around : List Marker} {m : Marker} {x y v : Value} {inner : Template}
      {found : List (List Value)} (notLive : m.live around = false)
      (operand : Fills w (m :: around) inner found (.value y))
      (list : w.ListWithTail [.sym ⟨m.name⟩, y] .nil v) :
      Fills w around (.marked m x inner) found (.value v)
  | pair {around : List Marker} {t row : Template} {found found' : List (List Value)}
      {vs : List Value} {y v : Value} (first : Fills w around t found (.element vs))
      (rest : Fills w around row found' (.value y)) (list : w.ListWithTail vs y v) :
      Fills w around (.pair t row) (found ++ found') (.value v)
  | vector {around : List Marker} {row : Template} {found : List (List Value)} {r : VectorRef}
      (elements : Fills w around row found (.elements (w.vector r))) :
      Fills w around (.vector row) found (.value (.vector r))
  | map {around : List Marker} {row : Template} {found : List (List Value)} {r : MapRef}
      (entries : Fills w around row found (.entries (w.entries r))) :
      Fills w around (.map row) found (.value (.map r))
  | one {around : List Marker} {t : Template} {found : List (List Value)} {v : Value}
      (value : Fills w around t found (.value v)) : Fills w around t found (.element [v])
  | splice {around : List Marker} {x : Value} {inner : Template} (vs : List Value)
      (live : Marker.splicing.live around = true) :
      Fills w around (.marked .splicing x inner) [vs] (.element vs)
  | noElements {around : List Marker} : Fills w around (.atom .nil) [] (.elements [])
  | elements {around : List Marker} {t row : Template} {found found' : List (List Value)}
      {vs vs' : List Value} (first : Fills w around t found (.element vs))
      (rest : Fills w around row found' (.elements vs')) :
      Fills w around (.pair t row) (found ++ found') (.elements (vs ++ vs'))
  | noEntries {around : List Marker} : Fills w around (.atom .nil) [] (.entries [])
  | entry {around : List Marker} {t row : Template} {found found' : List (List Value)} {k v : Value}
      {es : List (Value × Value)} (value : Fills w around t found (.value v))
      (rest : Fills w around row found' (.entries es)) :
      Fills w around (.entry k t row) (found ++ found') (.entries ((k, v) :: es))

end TemplateLisp
