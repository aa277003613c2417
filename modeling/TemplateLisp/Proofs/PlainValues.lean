import Mathlib.Logic.Relation
import TemplateLisp.World.Key
import TemplateLisp.World.Unfold
import TemplateLisp.Proofs.RoundTrip

/-!
# Values in the heap and their trees

`World.Plain` holds of the values that are built up from atoms by pairs, vectors and maps. Such a
value is finite: nothing in it contains itself. So no walk into it meets an object twice, and the
bounds on walks through the heap, which count its objects, are enough to unfold it
(`World.Plain.unfold`).

`World.Depicts` relates a value to a tree of the same structure.
-/

namespace TemplateLisp.World

open Relation (ReflTransGen TransGen)

variable (w : World)

/-! ## What values hold -/

/-- The first value is an object that holds the second directly. -/
inductive Holds : Value → Value → Prop where
  | car (r : CellRef) : Holds (.cell r) (w.cell r).car
  | cdr (r : CellRef) : Holds (.cell r) (w.cell r).cdr
  | item {r : VectorRef} {v : Value} (h : v ∈ w.vector r) : Holds (.vector r) v
  | key {r : MapRef} {e : Value × Value} (h : e ∈ w.entries r) : Holds (.map r) e.1
  | value {r : MapRef} {e : Value × Value} (h : e ∈ w.entries r) : Holds (.map r) e.2

/-- The first value is the second, or the second lies somewhere inside it. -/
abbrev Contains : Value → Value → Prop := ReflTransGen w.Holds

/-- Whether the value is no pair, vector or map. -/
def isAtomic : Value → Bool
  | .cell _ => false
  | .vector _ => false
  | .map _ => false
  | _ => true

/-- The values that are built up from `nil`, truth values, integers that can be written,
texts and symbols that are what their names read as, by pairs, vectors and maps with
distinct atoms as keys. -/
inductive Plain : Value → Prop where
  | nil : Plain .nil
  | bool (b : Bool) : Plain (.bool b)
  | int {n : Int} (short : n.natAbs < Number.digitBound) : Plain (.num (.int n))
  | str (s : String) : Plain (.str s)
  | sym {s : Symbol} (spelt : s.IsSpelt) : Plain (.sym s)
  | cell {r : CellRef} (first : Plain (w.cell r).car) (rest : Plain (w.cell r).cdr) :
      Plain (.cell r)
  | vector {r : VectorRef} (items : ∀ v ∈ w.vector r, Plain v) : Plain (.vector r)
  | map {r : MapRef} (keys : ∀ e ∈ w.entries r, Plain e.1) (values : ∀ e ∈ w.entries r, Plain e.2)
      (atoms : ∀ e ∈ w.entries r, isAtomic e.1 = true)
      (distinct : (w.entries r).Pairwise fun e f => w.sameKey e.1 f.1 = false) : Plain (.map r)

variable {w}

theorem Plain.of_holds {v x : Value} (h : w.Plain v) (hx : w.Holds v x) : w.Plain x := by
  cases hx with
  | car r | cdr r => cases h; assumption
  | item hmem => cases h with | vector items => exact items _ hmem
  | key hmem => cases h with | map keys => exact keys _ hmem
  | value hmem => cases h with | map _ values => exact values _ hmem

theorem Plain.of_inside {v x : Value} (h : w.Plain v) (hx : TransGen w.Holds v x) :
    w.Plain x := by
  induction hx with
  | single hx => exact h.of_holds hx
  | tail _ hx ih => exact ih.of_holds hx

/-- A walk from a plain value to what it holds comes to an end. -/
theorem Plain.acc {v : Value} (h : w.Plain v) : Acc (fun x y => w.Holds y x) v := by
  induction h with
  | nil | bool | int | str | sym => exact ⟨_, fun _ h => nomatch h⟩
  | cell first rest ihFirst ihRest =>
    refine ⟨_, fun x hx => ?_⟩
    cases hx with
    | car => exact ihFirst
    | cdr => exact ihRest
  | vector items ih =>
    refine ⟨_, fun x hx => ?_⟩
    cases hx with
    | item hmem => exact ih _ hmem
  | map keys values atoms distinct ihKeys ihValues =>
    refine ⟨_, fun x hx => ?_⟩
    cases hx with
    | key hmem => exact ihKeys _ hmem
    | value hmem => exact ihValues _ hmem

/-- To prove something of plain values, assume it of all that lies inside. -/
theorem Plain.induction {motive : Value → Prop} (h : ∀ v, w.Plain v →
    (∀ x, TransGen w.Holds v x → motive x) → motive v) {v : Value} (hv : w.Plain v) : motive v := by
  have hacc := hv.acc.transGen
  induction hacc with
  | intro v _ ih =>
    refine h v hv fun x hx => ih x (Relation.transGen_swap.2 hx) (hv.of_inside hx)

/-- Nothing in a plain value contains itself. -/
theorem Plain.not_inside_self {v : Value} (h : w.Plain v) : ¬ TransGen w.Holds v v :=
  Plain.induction (motive := fun v => ¬ TransGen w.Holds v v)
    (fun v _ ih hself => ih v hself hself) h

/-! ## Walks through the heap -/

variable (w) in
/-- The value is a pair of the heap. A reference to none reads as an empty pair. -/
def IsPair : Value → Prop
  | .cell r => r.index < w.cells.size
  | _ => False

variable (w) in
/-- The value is an object of the heap that holds others. -/
def IsObject : Value → Prop
  | .cell r => r.index < w.cells.size
  | .vector r => r.index < w.vectors.size
  | .map (.own index) => index < w.maps.size
  | .map (.vars env) => env.index < w.frames.size
  | _ => False

variable (w) in
/-- Those in `free` are all objects of the kind that a walk from the value can meet. -/
def Covers (kind : Value → Prop) (free : List Value) (v : Value) : Prop :=
  ∀ x, w.Contains v x → kind x → x ∈ free

section
variable {kind : Value → Prop} {free : List Value} {v : Value}

/-- Inside a plain object there is one object fewer to meet. -/
theorem Covers.inside (h : w.Covers kind free v) (hv : w.Plain v) {x : Value}
    (hx : TransGen w.Holds v x) : w.Covers kind (free.erase v) x := by
  intro y hy hkind
  have hmem : y ∈ free := h y (hx.to_reflTransGen.trans hy) hkind
  have hne : y ≠ v := by
    rintro rfl
    exact hv.not_inside_self (hx.trans_left hy)
  exact (List.mem_erase_of_ne hne).2 hmem

theorem Covers.length_erase (h : w.Covers kind free v) (hkind : kind v) :
    (free.erase v).length + 1 = free.length := by
  have hmem : v ∈ free := h v .refl hkind
  have hpos := List.length_pos_of_mem hmem
  rw [List.length_erase_of_mem hmem]
  omega

end

variable (w) in
/-- The pairs of a list in order, and what the list ends in. -/
inductive Spine : Value → List Cell → Value → Prop where
  | stop {v : Value} (h : ∀ r, v ≠ .cell r) : Spine v [] v
  | pair {r : CellRef} {cells : List Cell} {tail : Value} (rest : Spine (w.cell r).cdr cells tail) :
      Spine (.cell r) (w.cell r :: cells) tail

theorem cell_of_le {r : CellRef} (h : w.cells.size ≤ r.index) : w.cell r = ⟨.nil, .nil, none⟩ := by
  rw [World.cell, Array.getD_eq_getD_getElem?, Array.getElem?_eq_none h]
  rfl

/-- The walk along a plain list ends before it has met every object. -/
theorem Plain.spineAt {v : Value} (h : w.Plain v) {free : List Value}
    (hfree : w.Covers w.IsPair free v)
    {n : Nat} (hn : free.length + 2 ≤ n) (found : List Cell) :
    ∃ cells tail, w.spineAt n found v = some (found.reverse ++ cells, tail) ∧
      w.Spine v cells tail := by
  induction h generalizing free n found with
  | nil | bool | int | str | sym | vector | map =>
    obtain ⟨m, rfl⟩ : ∃ m, n = m + 1 := ⟨n - 1, by omega⟩
    exact ⟨[], _, by simp [World.spineAt], .stop nofun⟩
  | @cell r first rest _ ih =>
    obtain ⟨m, rfl⟩ : ∃ m, n = m + 2 := ⟨n - 2, by omega⟩
    have hplain : w.Plain (.cell r) := .cell first rest
    by_cases hobject : r.index < w.cells.size
    · have hlength := hfree.length_erase hobject
      obtain ⟨cells, tail, hspine, hshape⟩ :=
        ih (hfree.inside hplain (.single (.cdr r))) (by omega : _ ≤ m + 1) (w.cell r :: found)
      refine ⟨w.cell r :: cells, tail, ?_, .pair hshape⟩
      rw [World.spineAt, hspine]
      simp
    · have hempty := cell_of_le (Nat.not_lt.1 hobject)
      refine ⟨[w.cell r], .nil, ?_, .pair (by rw [hempty]; exact .stop nofun)⟩
      rw [World.spineAt, hempty, World.spineAt]
      · simp
      · exact nofun

variable (w) in
/-- The pairs of the heap. -/
def pairs : List Value := (List.range w.cells.size).map fun i => .cell ⟨i⟩

variable (w) in
/-- The objects of the heap that hold others. -/
def holders : List Value :=
  w.pairs ++ (List.range w.vectors.size).map (fun i => .vector ⟨i⟩) ++
    ((List.range w.maps.size).map (fun i => .map (.own i)) ++
      (List.range w.frames.size).map fun i => .map (.vars ⟨i⟩))

theorem length_holders : w.holders.length ≤ w.containers := by
  simp only [holders, pairs, containers, List.length_append, List.length_map, List.length_range]
  omega

theorem mem_pairs {r : CellRef} (h : r.index < w.cells.size) : .cell r ∈ w.pairs :=
  List.mem_map.2 ⟨r.index, List.mem_range.2 h, rfl⟩

theorem covers_pairs (v : Value) : w.Covers w.IsPair w.pairs v := by
  intro x _ hpair
  cases x with
  | cell r => exact mem_pairs hpair
  | _ => exact hpair.elim

theorem covers_holders (v : Value) : w.Covers w.IsObject w.holders v := by
  intro x _ hobject
  cases x with
  | cell r => exact List.mem_append_left _ (List.mem_append_left _ (mem_pairs hobject))
  | vector r =>
    refine List.mem_append_left _ (List.mem_append_right _ ?_)
    exact List.mem_map.2 ⟨r.index, List.mem_range.2 hobject, rfl⟩
  | map r =>
    cases r with
    | own index =>
      refine List.mem_append_right _ (List.mem_append_left _ ?_)
      exact List.mem_map.2 ⟨index, List.mem_range.2 hobject, rfl⟩
    | vars env =>
      refine List.mem_append_right _ (List.mem_append_right _ ?_)
      exact List.mem_map.2 ⟨env.index, List.mem_range.2 hobject, rfl⟩
  | _ => exact hobject.elim

/-- A plain list has a spine. -/
theorem Plain.spine? {v : Value} (h : w.Plain v) :
    ∃ cells tail, w.spine? v = some (cells, tail) ∧ w.Spine v cells tail := by
  have hlength : w.pairs.length + 2 ≤ w.cells.size + 2 := by simp [pairs]
  exact h.spineAt (covers_pairs v) hlength []

/-! ## Trees of values -/

variable (w) in
/-- The tree has the structure of the value, positions aside. -/
inductive Depicts : Value → Datum → Prop where
  | nil : Depicts .nil .nil
  | bool (b : Bool) : Depicts (.bool b) (.bool b)
  | num (n : Number) : Depicts (.num n) (.num n)
  | str (s : String) : Depicts (.str s) (.str s)
  | sym (s : Symbol) : Depicts (.sym s) (.sym s)
  | cell {r : CellRef} {pos : Option Pos} {car cdr : Datum} (first : Depicts (w.cell r).car car)
      (rest : Depicts (w.cell r).cdr cdr) : Depicts (.cell r) (.cons pos car cdr)
  | vector {r : VectorRef} {items : List Datum} (length : items.length = (w.vector r).length)
      (all : ∀ (i : Nat) v d, (w.vector r)[i]? = some v → items[i]? = some d → Depicts v d) :
      Depicts (.vector r) (.vector items)
  | map {r : MapRef} {entries : List (Datum × Datum)}
    (length : entries.length = (w.entries r).length)
      (keys : ∀ (i : Nat) e f, (w.entries r)[i]? = some e → entries[i]? = some f → Depicts e.1 f.1)
      (values : ∀ (i : Nat) e f, (w.entries r)[i]? = some e → entries[i]? = some f →
        Depicts e.2 f.2) :
      Depicts (.map r) (.map entries)

/-- What holds of the results one by one holds of them in a row. -/
theorem mapM_eq_ok {α β : Type} {f : α → Except Stop β} {R : α → β → Prop} {l : List α}
    (h : ∀ a ∈ l, ∃ b, f a = .ok b ∧ R a b) :
    ∃ bs, l.mapM f = .ok bs ∧ bs.length = l.length ∧
      ∀ (i : Nat) a b, l[i]? = some a → bs[i]? = some b → R a b := by
  induction l with
  | nil => exact ⟨[], rfl, rfl, by simp⟩
  | cons a l ih =>
    obtain ⟨b, hb, hR⟩ := h a (.head _)
    obtain ⟨bs, hbs, hlength, hall⟩ := ih fun x hx => h x (.tail _ hx)
    refine ⟨b :: bs, ?_, by simp [hlength], ?_⟩
    · rw [List.mapM_cons, hb]
      simp [bind, Except.bind, hbs, pure, Except.pure]
    · intro i x y hx hy
      cases i with
      | zero =>
        simp only [List.getElem?_cons_zero, Option.some.injEq] at hx hy
        exact hx ▸ hy ▸ hR
      | succ i => exact hall i x y (by simpa using hx) (by simpa using hy)

/-- What lies in the pairs of a spine, and what a spine of pairs ends in, lies inside the list. -/
theorem Spine.inside {v tail : Value} {cells : List Cell} (h : w.Spine v cells tail) :
    (∀ c ∈ cells, TransGen w.Holds v c.car) ∧ w.Contains v tail ∧
      (cells ≠ [] → TransGen w.Holds v tail) := by
  induction h with
  | stop => exact ⟨by simp, .refl, by simp⟩
  | @pair r cells tail rest ih =>
    refine ⟨List.forall_mem_cons.2 ⟨.single (.car r), fun c hc =>
      .head (.cdr r) (ih.1 c hc)⟩, ?_, ?_⟩
    · exact .head (.cdr r) ih.2.1
    · exact fun _ => .head' (.cdr r) ih.2.1

/-- The tree of a list, from the trees of its elements and of what it ends in. -/
theorem Spine.depicts {v tail : Value} {cells : List Cell} (h : w.Spine v cells tail)
    {items : List (Option Pos × Datum)} (hlength : items.length = cells.length)
    (hitems : ∀ (i : Nat) c d, cells[i]? = some c → items[i]? = some d → w.Depicts c.car d.2)
    {last : Datum} (hlast : w.Depicts tail last) :
    w.Depicts v (items.foldr (fun (pos, d) rest => .cons pos d rest) last) := by
  induction h generalizing items with
  | stop =>
    obtain rfl := List.eq_nil_of_length_eq_zero hlength
    exact hlast
  | pair rest ih =>
    cases items with
    | nil => simp at hlength
    | cons item items =>
      have hrest := ih (by simpa using hlength)
        (fun i c d hc hd => hitems (i + 1) c d (by simpa using hc) (by simpa using hd)) hlast
      exact .cell (hitems 0 _ item rfl rfl) hrest

/-- One level of the walk into a plain value, from the levels below. -/
theorem Plain.unfoldAt_succ {v : Value} (h : w.Plain v) {n : Nat}
    (hinside : ∀ x, TransGen w.Holds v x → ∃ d, w.unfoldAt none n x = .ok d ∧ w.Depicts x d) :
    ∃ d, w.unfoldAt none (n + 1) v = .ok d ∧ w.Depicts v d := by
  cases h with
  | nil => exact ⟨_, rfl, .nil⟩
  | bool b => exact ⟨_, rfl, .bool b⟩
  | @int n short =>
    refine ⟨_, ?_, .num (.int n)⟩
    show w.unfoldAtom (.num (.int n)) = _
    rw [unfoldAtom, if_pos short]
  | str s => exact ⟨_, rfl, .str s⟩
  | @sym s spelt => exact ⟨_, rfl, .sym s⟩
  | @cell r first rest =>
    obtain ⟨cells, tail, hspine, hshape⟩ := (Plain.cell first rest).spine?
    obtain ⟨hcars, -, htail⟩ := hshape.inside
    have hcells : cells ≠ [] := by
      cases hshape with
      | stop h => exact absurd rfl (h r)
      | pair => exact List.cons_ne_nil _ _
    have hitems : ∀ c ∈ cells, ∃ item : Option Pos × Datum,
        (do return (c.pos, ← w.unfoldAt none n c.car) : Except Stop _) = .ok item ∧
          w.Depicts c.car item.2 := by
      intro c hc
      obtain ⟨d, hd, hdepicts⟩ := hinside c.car (hcars c hc)
      exact ⟨(c.pos, d), by rw [hd]; rfl, hdepicts⟩
    obtain ⟨items, hread, hlength, hall⟩ := mapM_eq_ok hitems
    obtain ⟨last, hlast, hdepicts⟩ := hinside tail (htail hcells)
    refine ⟨_, ?_, hshape.depicts hlength hall hdepicts⟩
    rw [World.unfoldAt, hspine]
    simp only [hread, hlast]
    rfl
  | @vector r items =>
    obtain ⟨ds, hread, hlength, hall⟩ := mapM_eq_ok fun v hv => hinside v (.single (.item hv))
    refine ⟨.vector ds, ?_, .vector hlength hall⟩
    rw [World.unfoldAt]
    simp only [isOpen, Option.map_none, hread]
    rfl
  | @map r keys values atoms distinct =>
    have hentries : ∀ e ∈ w.entries r, ∃ f : Datum × Datum,
        (do return (← w.unfoldAt none n e.1, ← w.unfoldAt none n e.2) : Except Stop _) = .ok f ∧
          w.Depicts e.1 f.1 ∧ w.Depicts e.2 f.2 := by
      intro e he
      obtain ⟨k, hk, hkey⟩ := hinside e.1 (.single (.key he))
      obtain ⟨x, hx, hvalue⟩ := hinside e.2 (.single (.value he))
      exact ⟨(k, x), by rw [hk, hx]; rfl, hkey, hvalue⟩
    obtain ⟨es, hread, hlength, hall⟩ := mapM_eq_ok hentries
    refine ⟨.map es, ?_, .map hlength (fun i e f he hf => (hall i e f he hf).1)
      fun i e f he hf => (hall i e f he hf).2⟩
    rw [World.unfoldAt]
    simp only [isOpen, Option.map_none, hread]
    rfl

/-- A reference to no object reads as an empty one, which holds nothing but `nil`. -/
theorem eq_nil_of_inside {v x : Value} (hv : ¬ w.IsObject v) (hx : TransGen w.Holds v x) :
    x = .nil := by
  obtain ⟨b, hb, hx⟩ := TransGen.head'_iff.1 hx
  have hnil : b = .nil := by
    cases hb with
    | car r | cdr r => rw [cell_of_le (Nat.not_lt.1 hv)]
    | @item r _ hmem =>
      have hempty : w.vector r = [] := by
        rw [World.vector, Array.getD_eq_getD_getElem?, Array.getElem?_eq_none (Nat.not_lt.1 hv)]
        rfl
      rw [hempty] at hmem
      cases hmem
    | @key r _ hmem | @value r _ hmem =>
      have hempty : w.entries r = [] := by
        cases r with
        | own index =>
          rw [World.entries, Array.getD_eq_getD_getElem?, Array.getElem?_eq_none (Nat.not_lt.1 hv)]
          rfl
        | vars env =>
          rw [World.entries, World.frame, Array.getD_eq_getD_getElem?,
            Array.getElem?_eq_none (Nat.not_lt.1 hv)]
          rfl
      rw [hempty] at hmem
      cases hmem
  subst hnil
  cases hx.cases_head with
  | inl h => exact h.symm
  | inr h =>
    obtain ⟨c, hc, -⟩ := h
    cases hc

/-- The walk into a plain value ends before it has met every object. -/
theorem Plain.unfoldAt {v : Value} (h : w.Plain v) {free : List Value}
    (hfree : w.Covers w.IsObject free v) {n : Nat} (hn : free.length + 2 ≤ n) :
    ∃ d, w.unfoldAt none n v = .ok d ∧ w.Depicts v d := by
  revert hfree hn
  refine Plain.induction (motive := fun v => ∀ free n, w.Covers w.IsObject free v →
    free.length + 2 ≤ n → ∃ d, w.unfoldAt none n v = .ok d ∧ w.Depicts v d) ?_ h free n
  intro v hv ih free n hfree hn
  obtain ⟨m, rfl⟩ : ∃ m, n = m + 2 := ⟨n - 2, by omega⟩
  refine hv.unfoldAt_succ fun x hx => ?_
  by_cases hobject : w.IsObject v
  · have hlength := hfree.length_erase hobject
    exact ih x hx _ _ (hfree.inside hv hx) (by omega)
  · rw [eq_nil_of_inside hobject hx]
    exact ⟨.nil, rfl, .nil⟩

theorem Plain.unfold {v : Value} (h : w.Plain v) :
    ∃ d, w.unfold .unbounded v = .ok d ∧ w.Depicts v d :=
  h.unfoldAt (covers_holders v) (Nat.add_le_add_right length_holders 2)

end TemplateLisp.World
