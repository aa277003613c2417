import TemplateLisp.Proofs.Acyclicity
import TemplateLisp.Proofs.FormOutcomes

/-!
# Templates as trees

A template is data. Seen as a tree (`World.HasShape`), it is made of lists, vectors and maps, of
atoms, and of marker forms: two-element lists that are headed by `quasiquote`, `unquote` or
`unquote-splicing`. Data without cycles has such a tree (`World.Founded.hasShape`).

Which of the marker forms are to be evaluated is told by counting the markers around each of them
(`Marker.live`). Where a walk into a template has come to is a level of nesting (`Marker.AtLevel`),
and only at level zero are markers live.
-/

namespace TemplateLisp

/-! ## Markers -/

/-- What heads a marker form. -/
inductive Marker where
  | quasiquote
  | unquote
  | splicing
deriving DecidableEq

namespace Marker

/-- The symbol of the marker. -/
def name : Marker → String
  | quasiquote => "quasiquote"
  | unquote => "unquote"
  | splicing => "unquote-splicing"

/-- The marker makes a hole. -/
def isHole : Marker → Bool
  | quasiquote => false
  | unquote | splicing => true

/-- Among the markers around a place there are as many quasiquotes as holes. -/
def balanced (around : List Marker) : Bool := around.count quasiquote == around.countP isHole

/-- One of the markers around a place is live. The innermost one is the first. -/
def insideLive : List Marker → Bool
  | [] => false
  | m :: around => m.isHole && balanced around && !insideLive around || insideLive around

/-- A hole is live if it does not lie in a live one and the markers around it are balanced. -/
def live (m : Marker) (around : List Marker) : Bool :=
  m.isHole && balanced around && !insideLive around

/-- The level of nesting in the operand of a marker form that is not live. -/
def inside : Marker → (nesting : Nat) → Nat
  | quasiquote, nesting => nesting + 1
  | unquote, nesting | splicing, nesting => nesting - 1

theorem name_injective {m m' : Marker} (h : m.name = m'.name) : m = m' := by
  cases m <;> cases m' <;> first | rfl | exact absurd h (by decide)

/-- The place does not lie in a live hole, and `nesting` more quasiquotes than holes are
around it. -/
structure AtLevel (around : List Marker) (nesting : Nat) : Prop where
  outside : insideLive around = false
  count : around.count quasiquote = around.countP isHole + nesting

variable {m : Marker} {around : List Marker} {nesting : Nat}

theorem atLevel_nil : AtLevel [] 0 := ⟨rfl, rfl⟩

/-- Only at level zero are the markers around a place balanced. -/
theorem AtLevel.balanced_eq (h : AtLevel around nesting) : balanced around = (nesting == 0) := by
  rw [balanced, h.count, Bool.eq_iff_iff, beq_iff_eq, beq_iff_eq]
  omega

theorem AtLevel.live_eq (h : AtLevel around nesting) :
    m.live around = (m.isHole && nesting == 0) := by
  rw [live, h.balanced_eq, h.outside, Bool.not_false, Bool.and_true]

/-- A marker form that is not live has its operand on another level. -/
theorem AtLevel.inside (h : AtLevel around nesting) (hm : m.live around = false) :
    AtLevel (m :: around) (m.inside nesting) := by
  cases m with
  | quasiquote =>
    refine ⟨h.outside, ?_⟩
    rw [List.count_cons_self, h.count, List.countP_cons_of_neg (by decide), Nat.add_assoc]
    rfl
  | unquote | splicing =>
    obtain ⟨d, rfl⟩ : ∃ d, nesting = d + 1 :=
      Nat.exists_eq_succ_of_ne_zero (by simpa [h.live_eq, isHole] using hm)
    refine ⟨by simp [insideLive, h.outside, h.balanced_eq], ?_⟩
    rw [List.count_cons_of_ne (by decide), h.count, List.countP_cons_of_pos rfl]
    simp only [Marker.inside]
    omega

/-- Inside of a live hole nothing is live. -/
theorem insideLive_cons (h : m.live around = true) : insideLive (m :: around) = true := by
  rw [insideLive, ← live, h, Bool.true_or]

end Marker

/-! ## Trees -/

/-- A template as a tree. The elements of a vector are pairs that end in `nil`; so are the entries
of a map. -/
inductive Template where
  | atom (v : Value)
  | marked (m : Marker) (operand : Value) (inner : Template)
  | pair (first rest : Template)
  | vector (elements : Template)
  | map (entries : Template)
  | entry (key : Value) (value rest : Template)

/-- A marker form in a template: what it is headed by, the markers around it, the innermost one
first, its operand, and whether it is an element of a list or vector. -/
structure Occurrence where
  marker : Marker
  around : List Marker
  operand : Value
  element : Bool

/-- The marker form is to be evaluated. -/
def Occurrence.live (o : Occurrence) : Bool := o.marker.live o.around

namespace Template

/-- The marker forms in a template in the order in which they begin. -/
def occurrences (around : List Marker) (element : Bool) : Template → List Occurrence
  | atom _ => []
  | marked m x inner => ⟨m, around, x, element⟩ :: occurrences (m :: around) false inner
  | pair first rest => occurrences around true first ++ occurrences around false rest
  | vector row | map row => occurrences around false row
  | entry _ v rest => occurrences around false v ++ occurrences around false rest

/-- The marker forms that are to be evaluated. -/
def holes (around : List Marker) (element : Bool) (t : Template) : List Occurrence :=
  (t.occurrences around element).filter (·.live)

variable {around : List Marker} {element : Bool}

/-- No marker form that lies in a live one is live. -/
theorem occurrences_insideLive (t : Template) (element : Bool)
    (h : Marker.insideLive around = true) : ∀ o ∈ t.occurrences around element, o.live = false := by
  induction t generalizing around element with
  | atom => exact fun o ho => nomatch ho
  | marked m x inner ih =>
    have hinner : Marker.insideLive (m :: around) = true := by
      rw [Marker.insideLive, h, Bool.or_true]
    rintro o (_ | ⟨_, ho⟩)
    · rw [Occurrence.live, Marker.live, h, Bool.not_true, Bool.and_false]
    · exact ih false hinner o ho
  | pair first rest ihfirst ihrest =>
    exact fun o ho => (List.mem_append.1 ho).elim (ihfirst true h o) (ihrest false h o)
  | entry key v rest ihv ihrest =>
    exact fun o ho => (List.mem_append.1 ho).elim (ihv false h o) (ihrest false h o)
  | vector row ih | map row ih => exact ih false h

@[simp] theorem holes_pair (first rest : Template) :
    (pair first rest).holes around element = first.holes around true ++ rest.holes around false :=
  List.filter_append ..

@[simp] theorem holes_vector (row : Template) :
    (vector row).holes around element = row.holes around false := rfl

@[simp] theorem holes_map (row : Template) :
    (map row).holes around element = row.holes around false := rfl

@[simp] theorem holes_entry (key : Value) (v rest : Template) :
    (entry key v rest).holes around element = v.holes around false ++ rest.holes around false :=
  List.filter_append ..

/-- A live hole is the only one that begins in it. -/
theorem holes_live {m : Marker} (x : Value) (inner : Template) (h : m.live around = true) :
    (marked m x inner).holes around element = [⟨m, around, x, element⟩] := by
  have hinside := inner.occurrences_insideLive false (Marker.insideLive_cons h)
  rw [holes, occurrences, List.filter_cons_of_pos (by exact h), List.cons_inj_right,
    List.filter_eq_nil_iff]
  exact fun o ho => by simp [hinside o ho]

/-- A marker form that is not live has the holes of its operand. -/
theorem holes_marked {m : Marker} (x : Value) (inner : Template) (h : m.live around = false) :
    (marked m x inner).holes around element = inner.holes (m :: around) false := by
  rw [holes, occurrences, List.filter_cons_of_neg (by simpa [Occurrence.live] using h), holes]

end Template

/-! ## The tree of a template -/

/-- What a template is made of: values, lists from one of their pairs on, elements of a vector and
entries of a map. -/
inductive TemplatePart where
  | value (v : Value)
  | rest (v : Value)
  | elements (vs : List Value)
  | entries (es : List (Value × Value))

/-- The value is a template that is copied as it is. -/
def Value.isLeaf : Value → Bool
  | .cell _ | .vector _ | .map _ => false
  | _ => true

namespace World

variable (w : World)

/-- The part has the tree. From a pair other than the first one of a list on, only `(unquote x)` is
a marker form. -/
inductive HasShape : TemplatePart → Template → Prop where
  | atom {v : Value} (leaf : v.isLeaf = true) : HasShape (.value v) (.atom v)
  | marked {v x : Value} {inner : Template} (m : Marker) (form : w.operand? m.name v = some x)
      (operand : HasShape (.value x) inner) : HasShape (.value v) (.marked m x inner)
  | list {r : CellRef} {t row : Template}
      (plain : ∀ m : Marker, w.operand? m.name (.cell r) = none)
      (pairs : HasShape (.rest (.cell r)) (.pair t row)) : HasShape (.value (.cell r)) (.pair t row)
  | vector {r : VectorRef} {row : Template} (elements : HasShape (.elements (w.vector r)) row) :
      HasShape (.value (.vector r)) (.vector row)
  | map {r : MapRef} {row : Template} (entries : HasShape (.entries (w.entries r)) row) :
      HasShape (.value (.map r)) (.map row)
  | pair {r : CellRef} {t row : Template} (plain : w.operand? Marker.unquote.name (.cell r) = none)
      (first : HasShape (.value (w.cell r).car) t) (later : HasShape (.rest (w.cell r).cdr) row) :
      HasShape (.rest (.cell r)) (.pair t row)
  | tail {v : Value} {t : Template}
      (stop : ∀ r, v = .cell r → (w.operand? Marker.unquote.name v).isSome = true)
      (value : HasShape (.value v) t) : HasShape (.rest v) t
  | noElements : HasShape (.elements []) (.atom .nil)
  | element {v : Value} {vs : List Value} {t row : Template} (first : HasShape (.value v) t)
      (later : HasShape (.elements vs) row) : HasShape (.elements (v :: vs)) (.pair t row)
  | noEntries : HasShape (.entries []) (.atom .nil)
  | entry {k v : Value} {es : List (Value × Value)} {t row : Template}
    (value : HasShape (.value v) t)
      (later : HasShape (.entries es) row) : HasShape (.entries ((k, v) :: es)) (.entry k t row)

variable {w : World} {v x : Value}

/-- The operand of a marker form is the first half of its second pair. -/
theorem operand?_eq_some {name : String} (h : w.operand? name v = some x) :
    ∃ r q, v = .cell r ∧ (w.cell r).car = .sym ⟨name⟩ ∧ (w.cell r).cdr = .cell q ∧
      (w.cell q).car = x := by
  unfold operand? at h
  split at h
  · rename_i r
    split at h
    · rename_i s q hcar hcdr
      split at h
      · rename_i hform
        obtain ⟨hname, -⟩ : s.name = name ∧ (w.cell q).cdr = .nil := by simpa using hform
        subst hname
        exact ⟨r, q, rfl, hcar, hcdr, Option.some.inj h⟩
      · cases h
    · cases h
  · cases h

theorem transGen_operand {name : String} (h : w.operand? name v = some x) :
    Relation.TransGen (fun v x => x ∈ w.components v) v x := by
  obtain ⟨r, q, rfl, -, hcdr, rfl⟩ := operand?_eq_some h
  refine .tail (.single (List.mem_cons_of_mem _ List.mem_cons_self)) ?_
  rw [hcdr]
  exact List.mem_cons_self

theorem includes_operand {name : String} (h : w.operand? name v = some x) : w.Includes v x :=
  (transGen_operand h).to_reflTransGen

/-- A form has one marker. -/
theorem operand?_marker {m m' : Marker} {y : Value} (h : w.operand? m.name v = some x)
    (h' : w.operand? m'.name v = some y) : m = m' ∧ x = y := by
  obtain ⟨r, q, rfl, hcar, hcdr, rfl⟩ := operand?_eq_some h
  obtain ⟨r', q', hr, hcar', hcdr', rfl⟩ := operand?_eq_some h'
  cases hr
  obtain rfl : q = q' := Value.cell.inj (hcdr.symm.trans hcdr')
  have hname : m.name = m'.name := congrArg Symbol.name (Value.sym.inj (hcar.symm.trans hcar'))
  exact ⟨Marker.name_injective hname, rfl⟩

theorem operand?_other {m : Marker} (m' : Marker) (h : w.operand? m.name v = some x)
    (hne : m' ≠ m) :
    w.operand? m'.name v = none :=
  Option.eq_none_iff_forall_ne_some.2 fun _ hy => hne (operand?_marker hy h).1

/-- The tree of a marker form tells its marker and its operand. -/
theorem HasShape.marked_inv {m : Marker} {t : Template} (h : w.HasShape (.value v) t)
    (hform : w.operand? m.name v = some x) : ∃ inner, t = .marked m x inner := by
  obtain ⟨r, q, rfl, -⟩ := operand?_eq_some hform
  cases h with
  | atom leaf => cases leaf
  | marked m' form =>
    obtain ⟨rfl, rfl⟩ := operand?_marker form hform
    exact ⟨_, rfl⟩
  | list plain =>
    rw [plain m] at hform
    cases hform

/-- Elements that have trees make up a row. -/
theorem hasShape_elements {vs : List Value} (h : ∀ v ∈ vs, ∃ t, w.HasShape (.value v) t) :
    ∃ row, w.HasShape (.elements vs) row := by
  induction vs with
  | nil => exact ⟨_, .noElements⟩
  | cons v vs ih =>
    obtain ⟨t, ht⟩ := h v List.mem_cons_self
    obtain ⟨row, hrow⟩ := ih fun x hx => h x (List.mem_cons_of_mem _ hx)
    exact ⟨_, .element ht hrow⟩

theorem hasShape_entries {es : List (Value × Value)}
    (h : ∀ e ∈ es, ∃ t, w.HasShape (.value e.2) t) : ∃ row, w.HasShape (.entries es) row := by
  induction es with
  | nil => exact ⟨_, .noEntries⟩
  | cons e es ih =>
    obtain ⟨t, ht⟩ := h e List.mem_cons_self
    obtain ⟨row, hrow⟩ := ih fun x hx => h x (List.mem_cons_of_mem _ hx)
    exact ⟨_, .entry ht hrow⟩

/-- Where the way down ends, there is a tree. The operand of a marker form lies two steps down, so
the induction is on any number of steps. -/
theorem Founded.hasShape (h : w.Founded v) : ∃ t, w.HasShape (.value v) t := by
  suffices hboth : (∃ t, w.HasShape (.value v) t) ∧ ∃ t, w.HasShape (.rest v) t from hboth.1
  have hbelow := h.transGen
  clear h
  induction hbelow with
  | intro v _ ih =>
    have below {x : Value} (hx : x ∈ w.components v) := ih x (.single hx)
    have hpair {r : CellRef} (hr : v = .cell r)
        (hplain : w.operand? Marker.unquote.name (.cell r) = none) :
        ∃ t row, w.HasShape (.rest (.cell r)) (.pair t row) := by
      subst hr
      obtain ⟨t, ht⟩ := (below (x := (w.cell r).car) List.mem_cons_self).1
      obtain ⟨row, hrow⟩ :=
        (below (x := (w.cell r).cdr) (List.mem_cons_of_mem _ List.mem_cons_self)).2
      exact ⟨_, _, .pair hplain ht hrow⟩
    have hvalue : ∃ t, w.HasShape (.value v) t := by
      cases v with
      | cell r =>
        by_cases hform : ∃ (m : Marker) (x : Value), w.operand? m.name (.cell r) = some x
        · obtain ⟨m, x, hx⟩ := hform
          obtain ⟨t, ht⟩ := (ih x (Relation.transGen_swap.1 (transGen_operand hx))).1
          exact ⟨_, .marked m hx ht⟩
        · have hplain (m : Marker) : w.operand? m.name (.cell r) = none :=
            Option.eq_none_iff_forall_ne_some.2 fun x hx => hform ⟨m, x, hx⟩
          obtain ⟨t, row, hpairs⟩ := hpair rfl (hplain .unquote)
          exact ⟨_, .list hplain hpairs⟩
      | vector r =>
        obtain ⟨row, hrow⟩ := hasShape_elements fun x hx => (below (x := x) hx).1
        exact ⟨_, .vector hrow⟩
      | map r =>
        obtain ⟨row, hrow⟩ := hasShape_entries fun e he =>
          (below (mem_components_value he)).1
        exact ⟨_, .map hrow⟩
      | _ => exact ⟨_, .atom rfl⟩
    refine ⟨hvalue, ?_⟩
    by_cases hstop : ∀ r, v = .cell r → (w.operand? Marker.unquote.name v).isSome = true
    · exact hvalue.imp fun t ht => .tail hstop ht
    · obtain ⟨r, rfl, hplain⟩ : ∃ r, v = .cell r ∧
          ¬ (w.operand? Marker.unquote.name v).isSome = true := by simpa using hstop
      obtain ⟨t, row, hpairs⟩ := hpair rfl (by simpa using hplain)
      exact ⟨_, hpairs⟩

end World

end TemplateLisp
