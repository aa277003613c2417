import Mathlib.Data.List.Forall2
import TemplateLisp.Builtin.Basic
import TemplateLisp.Proofs.Acyclicity
import TemplateLisp.Proofs.Keys
import TemplateLisp.Host.Sample

/-!
# Equality is an equivalence

Equality of the language compares one level by one of a few rules (`World.EqualStep`), each of which
is symmetric and transitive if the level below is. So equality is both at every number of levels, on
all values, also those with cycles (`World.equalAt_symm`, `World.equalAt_trans`). Symmetry needs
that the keys of a map are told apart (`World.Keyed`): only then do two maps of one size that agree
in the keys of the first agree in those of the second.

Keys match if they are equal or have one name (`World.keysMatch_eq`), and a value with a name
equals only itself, so matching is an equivalence as well.

The main statement, `equality_equivalence`, adds that on values from which the way down ends the
tests end with an answer, and draws the consequence for the built-in function `=`, which compares
with its first argument only.
-/

namespace TemplateLisp

namespace World

/-! ## The keys of a map -/

/-- No two entries have one key. -/
def DistinctKeys (w : World) (es : List (Value × Value)) : Prop :=
  es.Pairwise fun e e' => w.sameKey e.1 e'.1 = false

/-- In every map the keys are told apart. -/
def Keyed (w : World) : Prop := ∀ r : MapRef, w.DistinctKeys (w.entries r)

section
variable {w : World} {es fs : List (Value × Value)}

/-- One and the same is found under keys that are the same. -/
theorem findKey?_congr {k k' : Value} (h : w.sameKey k k' = true) :
    w.findKey? es k = w.findKey? es k' := by
  rw [findKey?, findKey?]
  simp only [sameKey_congr h]

theorem findKey?_isSome_iff {k : Value} :
    (w.findKey? es k).isSome = true ↔ ∃ e ∈ es, w.sameKey e.1 k = true := by
  rw [findKey?, Option.isSome_map, List.find?_isSome]

/-- An entry is found under its key. -/
theorem DistinctKeys.findKey? (h : w.DistinctKeys es) {e : Value × Value} (he : e ∈ es) :
    w.findKey? es e.1 = some e.2 := by
  induction es with
  | nil => cases he
  | cons e' es ih =>
    obtain ⟨hhead, htail⟩ := List.pairwise_cons.1 h
    rw [findKey?_cons]
    rcases List.mem_cons.1 he with rfl | he
    · rw [if_pos (w.sameKey_refl _)]
    · rw [if_neg (by simp [hhead e he]), ih htail he]

theorem keysWithin_iff :
    w.keysWithin es fs = true ↔ ∀ e ∈ es, ∃ f ∈ fs, w.sameKey f.1 e.1 = true := by
  simp only [keysWithin, List.all_eq_true, findKey?_isSome_iff]

/-- Distinct keys that are all found among no more entries leave none of these over. -/
theorem DistinctKeys.keysWithin_symm (h : w.DistinctKeys es) (hlength : es.length = fs.length)
    (hwithin : w.keysWithin es fs = true) : w.keysWithin fs es = true := by
  induction es generalizing fs with
  | nil =>
    obtain rfl := List.eq_nil_of_length_eq_zero hlength.symm
    rfl
  | cons e es ih =>
    obtain ⟨hhead, htail⟩ := List.pairwise_cons.1 h
    rw [keysWithin_iff] at hwithin
    obtain ⟨f, hf, hfe⟩ := hwithin e List.mem_cons_self
    obtain ⟨before, behind, rfl⟩ := List.append_of_mem hf
    -- the keys of the other entries are other keys than that of `f`, so `f` can be left out
    have hothers : w.keysWithin es (before ++ behind) = true := by
      refine keysWithin_iff.2 fun x hx => ?_
      obtain ⟨y, hy, hyx⟩ := hwithin x (List.mem_cons_of_mem e hx)
      refine ⟨y, ?_, hyx⟩
      have hne : y ≠ f := by
        rintro rfl
        have hsame := sameKey_trans (sameKey_symm hfe) hyx
        rw [hhead x hx] at hsame
        cases hsame
      simp only [List.mem_append, List.mem_cons] at hy ⊢
      tauto
    have hback := keysWithin_iff.1 (ih htail (by simp at hlength ⊢; omega) hothers)
    refine keysWithin_iff.2 fun y hy => ?_
    have hcases : y = f ∨ y ∈ before ++ behind := by
      simp only [List.mem_append, List.mem_cons] at hy ⊢
      tauto
    rcases hcases with rfl | hy
    · exact ⟨e, List.mem_cons_self, sameKey_symm hfe⟩
    · obtain ⟨x, hx, hxy⟩ := hback y hy
      exact ⟨x, List.mem_cons_of_mem e hx, hxy⟩

end

/-! ## When the parts of a comparison succeed -/

section
variable {w : World} {test : Value → Value → Except Stop Bool}

/-- The test ends and lets the two values pass. -/
abbrev Passes (test : Value → Value → Except Stop Bool) (a b : Value) : Prop := test a b = .ok true

theorem and_eq_ok_true_iff {x y : Except Stop Bool} :
    (do if ← x then y else return false) = .ok true ↔ x = .ok true ∧ y = .ok true := by
  cases x with
  | error s => exact ⟨nofun, fun h => nomatch h.1⟩
  | ok b =>
    cases b with
    | true => exact ⟨fun h => ⟨rfl, h⟩, fun h => h.2⟩
    | false => exact ⟨nofun, fun h => nomatch h.1⟩

theorem allPairs_eq_ok_true_iff {xs ys : List Value} :
    allPairs test xs ys = .ok true ↔ List.Forall₂ (Passes test) xs ys := by
  induction xs generalizing ys with
  | nil => cases ys <;> simp [allPairs]
  | cons x xs ih =>
    cases ys with
    | nil => simp [allPairs]
    | cons y ys => rw [allPairs, and_eq_ok_true_iff, List.forall₂_cons, ih]

theorem entriesAgree_eq_ok_true_iff {es fs : List (Value × Value)} :
    w.entriesAgree test fs es = .ok true ↔
      ∀ e ∈ es, ∃ u, w.findKey? fs e.1 = some u ∧ Passes test e.2 u := by
  induction es with
  | nil => simp [entriesAgree]
  | cons e es ih =>
    rw [entriesAgree, List.forall_mem_cons, ← ih]
    cases w.findKey? fs e.1 with
    | none => simp
    | some u => simp [and_eq_ok_true_iff]

/-- Whether the value is a pair. -/
def isCell : Value → Bool
  | .cell _ => true
  | _ => false

theorem spinesAgree_cells (n : Nat) (r s : CellRef) :
    w.spinesAgree false test test (n + 1) (.cell r) (.cell s) = .ok true ↔
      Passes test (w.cell r).car (w.cell s).car ∧
        w.spinesAgree false test test n (w.cell r).cdr (w.cell s).cdr = .ok true := by
  rw [spinesAgree, Bool.false_and, if_neg Bool.false_ne_true, and_eq_ok_true_iff]

/-- Where one of two chains has ended, what is left is compared. -/
theorem spinesAgree_ended {a b : Value} (h : isCell a = false ∨ isCell b = false) (n : Nat) :
    w.spinesAgree false test test (n + 1) a b = test a b := by
  rw [spinesAgree]
  rintro r s rfl rfl
  rcases h with h | h <;> cases h

theorem spinesAgree_symm (htest : ∀ {a b}, Passes test a b → Passes test b a)
    {n : Nat} {a b : Value} (h : w.spinesAgree false test test n a b = .ok true) :
    w.spinesAgree false test test n b a = .ok true := by
  induction n generalizing a b with
  | zero => cases h
  | succ n ih =>
    by_cases hcells : isCell a = true ∧ isCell b = true
    · obtain ⟨ha, hb⟩ := hcells
      cases a <;> cases ha
      cases b <;> cases hb
      obtain ⟨hcars, hcdrs⟩ := (spinesAgree_cells n _ _).1 h
      exact (spinesAgree_cells n _ _).2 ⟨htest hcars, ih hcdrs⟩
    · have hended : isCell a = false ∨ isCell b = false := by
        rwa [not_and_or, Bool.not_eq_true, Bool.not_eq_true] at hcells
      rw [spinesAgree_ended hended] at h
      rw [spinesAgree_ended hended.symm]
      exact htest h

theorem spinesAgree_trans (htest : ∀ {a b c}, Passes test a b → Passes test b c → Passes test a c)
    (hcell : ∀ {a b}, Passes test a b → isCell a = isCell b) {n : Nat} {a b c : Value}
    (hab : w.spinesAgree false test test n a b = .ok true)
    (hbc : w.spinesAgree false test test n b c = .ok true) :
    w.spinesAgree false test test n a c = .ok true := by
  induction n generalizing a b c with
  | zero => cases hab
  | succ n ih =>
    -- chains that agree end at the same place
    have hkind {x y : Value} (h : w.spinesAgree false test test (n + 1) x y = .ok true) :
        isCell x = isCell y := by
      by_cases hcells : isCell x = true ∧ isCell y = true
      · exact hcells.1.trans hcells.2.symm
      · rw [not_and_or, Bool.not_eq_true, Bool.not_eq_true] at hcells
        exact hcell ((spinesAgree_ended hcells n).symm.trans h)
    have hb := hkind hab
    have hc := hkind hbc
    cases ha : isCell a with
    | true =>
      rw [ha] at hb
      rw [← hb] at hc
      cases a <;> cases ha
      cases b <;> cases hb
      cases c <;> cases hc
      obtain ⟨hcars, hcdrs⟩ := (spinesAgree_cells n _ _).1 hab
      obtain ⟨hcars', hcdrs'⟩ := (spinesAgree_cells n _ _).1 hbc
      exact (spinesAgree_cells n _ _).2 ⟨htest hcars hcars', ih hcdrs hcdrs'⟩
    | false =>
      rw [spinesAgree_ended (.inl ha)] at hab ⊢
      rw [spinesAgree_ended (.inl (hb.symm.trans ha))] at hbc
      exact htest hab hbc

end

/-! ## One level of a comparison -/

/-- The rules by which two values are equal, from what is equal at the level below. -/
inductive EqualStep (w : World) (n : Nat) : Value → Value → Prop where
  | same {a : Value} : EqualStep w n a a
  | number {x y : Number} (value : x.eqv y = true) : EqualStep w n (.num x) (.num y)
  | pair {r s : CellRef} (spines : w.spinesAgree false (w.equalAt n) (w.equalAt n) w.spineFuel
      (.cell r) (.cell s) = .ok true) : EqualStep w n (.cell r) (.cell s)
  | map {r s : MapRef} (size : (w.entries r).length = (w.entries s).length)
      (keys : w.keysWithin (w.entries r) (w.entries s) = true)
      (values : ∀ e ∈ w.entries r, ∃ u, w.findKey? (w.entries s) e.1 = some u ∧
        Passes (w.equalAt n) e.2 u) : EqualStep w n (.map r) (.map s)
  | sequence {a b : Value} {xs ys : List Value} (left : w.sequence? a = some xs)
      (right : w.sequence? b = some ys) (items : List.Forall₂ (Passes (w.equalAt n)) xs ys) :
      EqualStep w n a b

section
variable {w : World} {n : Nat} {a b c : Value}

theorem equalAt_self (n : Nat) (a : Value) : w.equalAt (n + 1) a a = .ok true := by
  unfold equalAt
  rw [if_pos rfl]

theorem equalAt_succ_iff : w.equalAt (n + 1) a b = .ok true ↔ EqualStep w n a b := by
  constructor
  · intro h
    unfold equalAt at h
    split at h
    · rename_i hsame
      exact hsame ▸ .same
    split at h
    · cases h
    · cases h
    · exact .number (Except.ok.inj h)
    · exact .pair h
    · rename_i r s hne
      dsimp only at h
      split at h
      · rename_i hshape
        simp only [Bool.and_eq_true, decide_eq_true_eq] at hshape
        exact .map hshape.1 hshape.2 (entriesAgree_eq_ok_true_iff.1 h)
      · cases h
    · split at h
      · rename_i xs ys hxs hys
        split at h
        · exact .sequence hxs hys (allPairs_eq_ok_true_iff.1 h)
        · cases h
      · cases h
  · intro h
    by_cases hne : a = b
    · rw [hne, equalAt_self]
    cases h with
    | same => exact equalAt_self n a
    | number value => rw [equalAt, if_neg hne, value]
    | pair spines => rw [equalAt, if_neg hne, spines]
    | map size keys values =>
      rw [equalAt, if_neg hne, if_pos (by simp [size, keys])]
      exact entriesAgree_eq_ok_true_iff.2 values
    | sequence left right items =>
      have hlists := allPairs_eq_ok_true_iff.2 items
      have hlength := items.length_eq
      -- only vectors and fixed sequences have elements
      cases a <;> cases left <;> cases b <;> cases right <;>
        simp [equalAt, hne, sequence?, hlength, hlists]

theorem EqualStep.isCell_eq (h : EqualStep w n a b) : isCell a = isCell b := by
  cases h with
  | sequence left right => cases a <;> cases left <;> cases b <;> cases right <;> rfl
  | _ => rfl

theorem isCell_eq_of_equalAt (h : Passes (w.equalAt n) a b) : isCell a = isCell b := by
  cases n with
  | zero => cases h
  | succ n => exact (equalAt_succ_iff.1 h).isCell_eq

theorem EqualStep.symm (hw : w.Keyed)
    (hbelow : ∀ {x y}, Passes (w.equalAt n) x y → Passes (w.equalAt n) y x)
    (h : EqualStep w n a b) :
    EqualStep w n b a := by
  cases h with
  | same => exact .same
  | number value => exact .number (Number.eqv_symm value)
  | pair spines => exact .pair (spinesAgree_symm hbelow spines)
  | @map r s size keys values =>
    have hback := (hw r).keysWithin_symm size keys
    refine .map size.symm hback fun f hf => ?_
    obtain ⟨e, he, hef⟩ := keysWithin_iff.1 hback f hf
    obtain ⟨u, hu, heu⟩ := values e he
    refine ⟨e.2, (findKey?_congr hef).symm.trans ((hw r).findKey? he), ?_⟩
    rw [findKey?_congr hef, (hw s).findKey? hf] at hu
    exact Option.some.inj hu ▸ hbelow heu
  | sequence left right items =>
    exact .sequence right left (items.imp fun _ _ => hbelow).flip

theorem EqualStep.trans
    (hbelow : ∀ {x y z}, Passes (w.equalAt n) x y → Passes (w.equalAt n) y z →
    Passes (w.equalAt n) x z)
    (hab : EqualStep w n a b) (hbc : EqualStep w n b c) : EqualStep w n a c := by
  cases hab with
  | same => exact hbc
  | number value =>
    cases hbc with
    | same => exact .number value
    | number value' => exact .number (Number.eqv_trans value value')
    | sequence left => cases left
  | pair spines =>
    cases hbc with
    | same => exact .pair spines
    | pair spines' => exact .pair (spinesAgree_trans hbelow isCell_eq_of_equalAt spines spines')
    | sequence left => cases left
  | @map r s size keys values =>
    cases hbc with
    | same => exact .map size keys values
    | @map _ t size' keys' values' =>
      have hvalues : ∀ e ∈ w.entries r, ∃ u, w.findKey? (w.entries t) e.1 = some u ∧
          Passes (w.equalAt n) e.2 u := by
        intro e he
        obtain ⟨v, hv, hev⟩ := values e he
        obtain ⟨f, hf, rfl⟩ := Option.map_eq_some_iff.1 hv
        have hsame : w.sameKey f.1 e.1 = true := by simpa using List.find?_some hf
        obtain ⟨u, hu, hfu⟩ := values' f (List.mem_of_find?_eq_some hf)
        exact ⟨u, (findKey?_congr hsame).symm.trans hu, hbelow hev hfu⟩
      refine .map (size.trans size') (keysWithin_iff.2 fun e he => ?_) hvalues
      obtain ⟨u, hu, -⟩ := hvalues e he
      exact findKey?_isSome_iff.1 (hu ▸ rfl)
    | sequence left => cases left
  | sequence left right items =>
    cases hbc with
    | same => exact .sequence left right items
    | sequence left' right' items' =>
      obtain rfl := Option.some.inj (right.symm.trans left')
      exact .sequence left right' (forall₂_trans items items' hbelow)
    | _ => cases right

end

/-! ## Equality at any number of levels -/

section
variable {w : World} {n : Nat} {room : Room} {a b c : Value}

theorem equalAt_symm (hw : w.Keyed) (h : Passes (w.equalAt n) a b) : Passes (w.equalAt n) b a := by
  induction n generalizing a b with
  | zero => cases h
  | succ n ih => exact equalAt_succ_iff.2 ((equalAt_succ_iff.1 h).symm hw ih)

theorem equalAt_trans (hab : Passes (w.equalAt n) a b) (hbc : Passes (w.equalAt n) b c) :
    Passes (w.equalAt n) a c := by
  induction n generalizing a b c with
  | zero => cases hab
  | succ n ih =>
    exact equalAt_succ_iff.2 ((equalAt_succ_iff.1 hab).trans ih (equalAt_succ_iff.1 hbc))

theorem equal_self (w : World) (a : Value) : Passes (w.equal .unbounded) a a := equalAt_self _ a

theorem equal_symm (hw : w.Keyed) (h : Passes (w.equal room) a b) : Passes (w.equal room) b a :=
  equalAt_symm hw h

theorem equal_trans (hab : Passes (w.equal room) a b) (hbc : Passes (w.equal room) b c) :
    Passes (w.equal room) a c := equalAt_trans hab hbc

end

/-! ## Keys that match -/

/-- The name that a key has: the bare name of a symbol, or a text as it is. -/
def keyName? : Value → Option String
  | .sym s => some s.bareName
  | .str s => some s
  | _ => none

/-- Both keys have a name, and it is the same. -/
def sameName (a b : Value) : Bool :=
  match keyName? a, keyName? b with
  | some s, some t => s = t
  | _, _ => false

theorem sameName_iff {a b : Value} :
    sameName a b = true ↔ ∃ name, keyName? a = some name ∧ keyName? b = some name := by
  unfold sameName
  cases keyName? a <;> cases keyName? b <;> simp [eq_comm]

/-- Symbols and texts have names. -/
theorem keyName?_eq_some {a : Value} {name : String} (h : keyName? a = some name) :
    (∃ s, a = .sym s) ∨ a = .str name := by
  cases a with
  | sym s => exact .inl ⟨s, rfl⟩
  | str s => exact .inr (by rw [Option.some.inj h])
  | _ => cases h

section
variable {w : World} {n : Nat} {room : Room} {a b c : Value}

/-- Whether two values with names are equal can be seen at any level. -/
theorem equalAt_of_named {s t : String} (ha : keyName? a = some s) (hb : keyName? b = some t) :
    w.equalAt (n + 1) a b = .ok (decide (a = b)) := by
  rcases keyName?_eq_some ha with ⟨s, rfl⟩ | rfl <;>
    rcases keyName?_eq_some hb with ⟨t, rfl⟩ | rfl <;>
    (unfold equalAt; split <;> simp_all [sequence?])

/-- A value with a name equals only itself. -/
theorem EqualStep.eq_of_named (h : EqualStep w n a b)
    (hname : keyName? a ≠ none ∨ keyName? b ≠ none) : a = b := by
  cases h with
  | same => rfl
  | sequence left right =>
    cases a <;> cases left <;> cases b <;> cases right <;> simp [keyName?] at hname
  | _ => simp [keyName?] at hname

theorem eq_of_equal_named (h : Passes (w.equal room) a b)
    (hname : keyName? a ≠ none ∨ keyName? b ≠ none) : a = b := by
  unfold Passes equal at h
  cases hlevels : room.levels (w.containers + 2) with
  | zero =>
    rw [hlevels] at h
    cases h
  | succ n =>
    rw [hlevels] at h
    exact (equalAt_succ_iff.1 h).eq_of_named hname

theorem equal_self_ne_false (w : World) (room : Room) (a : Value) :
    w.equal room a a ≠ .ok false := by
  unfold equal
  cases room.levels (w.containers + 2) with
  | zero => exact nofun
  | succ n =>
    rw [equalAt_self]
    exact nofun

/-- Keys match if they are equal or have one name. -/
theorem keysMatch_eq (w : World) (room : Room) (a b : Value) :
    w.keysMatch room a b = (w.equal room a b).map (· || sameName a b) := by
  unfold keysMatch
  cases hequal : w.equal room a b with
  | error s => rfl
  | ok e =>
    cases e with
    | true => rfl
    | false =>
      refine (?_ : _ = Except.ok (sameName a b))
      simp only [bind, Except.bind, Bool.false_eq_true, if_false]
      split
      · rfl
      · simp [sameName, keyName?, eq_comm, pure, Except.pure]
      · rfl
      · rename_i hsymText htextSym hsyms
        -- a text has the name of another text only if it is that text, which is equal to itself
        have hother : sameName a b ≠ true := by
          intro hname
          obtain ⟨name, ha, hb⟩ := sameName_iff.1 hname
          rcases keyName?_eq_some ha with ⟨s, rfl⟩ | rfl <;>
            rcases keyName?_eq_some hb with ⟨t, rfl⟩ | rfl
          · exact hsyms s t rfl rfl
          · exact hsymText s name rfl rfl
          · exact htextSym name t rfl rfl
          · exact w.equal_self_ne_false room _ hequal
        rw [Bool.eq_false_iff.2 hother]
        rfl

theorem keysMatch_iff : Passes (w.keysMatch room) a b ↔
    Passes (w.equal room) a b ∨ Decides (w.equal room a b) ∧ sameName a b = true := by
  unfold Passes Decides
  rw [keysMatch_eq]
  cases w.equal room a b with
  | error s => simp [Except.map]
  | ok e => cases e <;> simp [Except.map]

theorem keysMatch_of_equal (h : Passes (w.equal room) a b) : Passes (w.keysMatch room) a b :=
  keysMatch_iff.2 (.inl h)

theorem decides_keysMatch (h : Decides (w.equal room a b)) : Decides (w.keysMatch room a b) := by
  obtain ⟨e, he⟩ := h
  exact ⟨_, by rw [keysMatch_eq, he]; rfl⟩

/-- Where one comparison comes to an end, one of two values with names does. -/
theorem decides_of_named {a' b' : Value} (h : Decides (w.equal room a' b')) {s t : String}
    (ha : keyName? a = some s) (hb : keyName? b = some t) : Decides (w.equal room a b) := by
  unfold Decides equal at *
  cases hlevels : room.levels (w.containers + 2) with
  | zero =>
    rw [hlevels] at h
    obtain ⟨e, he⟩ := h
    cases he
  | succ n => exact ⟨_, equalAt_of_named ha hb⟩

/-- Matching is symmetric where equality is. -/
theorem keysMatch_symm (hequal : Passes (w.equal room) a b → Passes (w.equal room) b a)
    (h : Passes (w.keysMatch room) a b) : Passes (w.keysMatch room) b a := by
  rcases keysMatch_iff.1 h with hab | ⟨hends, hname⟩
  · exact keysMatch_of_equal (hequal hab)
  · obtain ⟨name, ha, hb⟩ := sameName_iff.1 hname
    exact keysMatch_iff.2 (.inr ⟨decides_of_named hends hb ha, sameName_iff.2 ⟨name, hb, ha⟩⟩)

theorem keysMatch_trans (hab : Passes (w.keysMatch room) a b)
    (hbc : Passes (w.keysMatch room) b c) :
    Passes (w.keysMatch room) a c := by
  rcases keysMatch_iff.1 hab with hequal | ⟨hends, hname⟩
  · rcases keysMatch_iff.1 hbc with hequal' | ⟨-, hname'⟩
    · exact keysMatch_of_equal (equal_trans hequal hequal')
    · -- `b` has a name, so `a` is the same value
      obtain ⟨name, hb, -⟩ := sameName_iff.1 hname'
      obtain rfl := eq_of_equal_named hequal (.inr (by simp [hb]))
      exact hbc
  · obtain ⟨name, ha, hb⟩ := sameName_iff.1 hname
    rcases keysMatch_iff.1 hbc with hequal' | ⟨-, hname'⟩
    · obtain rfl := eq_of_equal_named hequal' (.inl (by simp [hb]))
      exact hab
    · obtain ⟨name', hb', hc⟩ := sameName_iff.1 hname'
      obtain rfl := Option.some.inj (hb.symm.trans hb')
      exact keysMatch_iff.2 (.inr ⟨decides_of_named hends ha hc, sameName_iff.2 ⟨name, ha, hc⟩⟩)

end

/-- Numbers are equal exactly if they have one exact value, be they integers, doubles or decimals;
only one and the same not-a-number is equal to itself as well. -/
theorem equal_num_iff {w : World} {x y : Number} :
    Passes (w.equal .unbounded) (.num x) (.num y) ↔
      x = y ∨ ∃ m, x.magnitude? = some m ∧ y.magnitude? = some m := by
  have hlevels : w.equal .unbounded (.num x) (.num y) =
      w.equalAt (w.containers + 1 + 1) (.num x) (.num y) := rfl
  rw [Passes, hlevels, equalAt_succ_iff, ← Number.eqv_iff]
  constructor
  · intro h
    cases h with
    | same => exact .inl rfl
    | number value => exact .inr value
    | sequence left => cases left
  · rintro (rfl | h)
    · exact .same
    · exact .number h

end World

/-! ## The built-in function -/

open World (Passes Decides)

/-- The test for equality of all values with the first ends with an answer if each
comparison does. -/
theorem Comparison.run_allEqual {room : Room} {first : Value} {vs : List Value} {w : World}
    (h : ∀ v ∈ vs, Decides (w.equal room first v)) :
    ∃ b, (allEqual room first vs).run w = .ok b w ∧
      (b = true ↔ ∀ v ∈ vs, Passes (w.equal room) first v) := by
  induction vs with
  | nil => exact ⟨true, rfl, by simp⟩
  | cons v vs ih =>
    obtain ⟨hv, hvs⟩ := List.forall_mem_cons.1 h
    obtain ⟨e, he⟩ := hv
    have hstep : (allEqual room first (v :: vs)).run w =
        (if e then allEqual room first vs else pure false : Run Bool).run w := by
      rw [allEqual, EStateM.run_bind, Run.run_lookOrStop, he]
    rw [hstep]
    cases e with
    | false => exact ⟨false, rfl, by simp [Passes, he]⟩
    | true =>
      obtain ⟨b, hrun, hb⟩ := ih hvs
      exact ⟨b, hrun, by simp [Passes, hb, he]⟩

/-- Equality of the language and matching of keys are equivalences on the values of a world, and
equal values match as keys. On values from which the way down ends both come to an answer. So `=`
says of any number of such arguments, in any order, whether each two of them are equal. -/
theorem equality_equivalence [Host] (w : World) (hw : w.Keyed) :
    Equivalence (Passes (w.equal .unbounded)) ∧ Equivalence (Passes (w.keysMatch .unbounded)) ∧
    (∀ a b, Passes (w.equal .unbounded) a b → Passes (w.keysMatch .unbounded) a b) ∧
    (∀ a b, w.Founded a →
      Decides (w.equal .unbounded a b) ∧ Decides (w.keysMatch .unbounded a b)) ∧
    ∀ (call : Caller) (args : List Value), args ≠ [] → (∀ v ∈ args, w.Founded v) →
      ∃ b, (b = true ↔ ∀ u ∈ args, ∀ v ∈ args, Passes (w.equal .unbounded) u v) ∧
        ∀ args', args'.Perm args →
          (Builtin.equals.run .unbounded call args').run w = .ok (.bool b) w := by
  refine ⟨⟨w.equal_self, World.equal_symm hw, World.equal_trans⟩,
    ⟨fun a => World.keysMatch_of_equal (w.equal_self a), World.keysMatch_symm (World.equal_symm hw),
      World.keysMatch_trans⟩,
    fun _ _ => World.keysMatch_of_equal,
    fun a b ha => ⟨ha.equal b, World.decides_keysMatch (ha.equal b)⟩,
    fun call args hne hfounded => ?_⟩
  -- one order of the arguments at a time: the answer is that for each two of them
  have horder : ∀ args', args'.Perm args → ∃ b,
      (Builtin.equals.run .unbounded call args').run w = .ok (.bool b) w ∧
      (b = true ↔ ∀ u ∈ args, ∀ v ∈ args, Passes (w.equal .unbounded) u v) := by
    intro args' hperm
    cases args' with
    | nil => exact absurd (List.nil_perm.1 hperm) hne
    | cons first vs =>
      have hfirst : w.Founded first := hfounded first (hperm.mem_iff.1 List.mem_cons_self)
      have hends : ∀ v ∈ vs, Decides (w.equal .unbounded first v) := fun v _ => hfirst.equal v
      obtain ⟨b, hrun, hb⟩ := Comparison.run_allEqual hends
      refine ⟨b, ?_, hb.trans ⟨fun h u hu v hv => ?_, fun h v hv => ?_⟩⟩
      · show (Comparison.equal .unbounded first vs).run w = _
        rw [Comparison.equal, EStateM.run_bind, hrun]
        rfl
      · have hall : ∀ x ∈ args, Passes (w.equal .unbounded) first x := by
          intro x hx
          rcases List.mem_cons.1 (hperm.mem_iff.2 hx) with rfl | hx
          · exact w.equal_self x
          · exact h x hx
        exact World.equal_trans (World.equal_symm hw (hall u hu)) (hall v hv)
      · exact h first (hperm.mem_iff.1 List.mem_cons_self) v
          (hperm.mem_iff.1 (List.mem_cons_of_mem first hv))
  obtain ⟨b, -, hb⟩ := horder args (.refl args)
  refine ⟨b, hb, fun args' hperm => ?_⟩
  obtain ⟨b', hrun, hb'⟩ := horder args' hperm
  rw [hrun, Bool.eq_iff_iff.2 (hb'.trans hb.symm)]

/-- Three maps of lists that hold the number one, as an integer, as a double and as a decimal, and
one with a double next to one. -/
def threeOnes : World :=
  { World.empty with
    cells := #[⟨.int 1, .nil, none⟩, ⟨.num (.float (.finite false 1 0)), .nil, none⟩,
      ⟨.num (.dec (.finite false 100 (-2))), .nil, none⟩,
      ⟨.num (.float (.finite false 1025 (-10))), .nil, none⟩]
    vectors := #[[.cell ⟨0⟩], [.cell ⟨2⟩], [.cell ⟨3⟩]]
    tuples := #[[.cell ⟨1⟩]]
    maps := #[[(.sym ⟨":one"⟩, .vector ⟨0⟩)], [(.sym ⟨":one"⟩, .tuple ⟨0⟩)],
      [(.sym ⟨":one"⟩, .vector ⟨1⟩)], [(.sym ⟨":one"⟩, .vector ⟨2⟩)]] }

open scoped SampleHost in
/-- The maps of ones are equal, asked for in any order, and the other map equals none of them. -/
theorem equality_equivalence_maps :
    threeOnes.Keyed ∧
    (∀ v ∈ [Value.map (.own 0), .map (.own 1), .map (.own 2), .map (.own 3)], threeOnes.Founded v) ∧
    (Builtin.equals.run .unbounded (fun _ _ => pure .nil)
      [.map (.own 2), .map (.own 0), .map (.own 1)]).run threeOnes = .ok (.bool true) threeOnes ∧
    (Builtin.equals.run .unbounded (fun _ _ => pure .nil) [.map (.own 3), .map (.own 0)]).run
      threeOnes = .ok (.bool false) threeOnes := by
  have hkeyed : threeOnes.Keyed := by
    intro r
    match r with
    | .own 0 | .own 1 | .own 2 | .own 3 => exact List.pairwise_singleton ..
    | .own (i + 4) | .vars env => exact .nil
  have hfounded : ∀ v ∈ [Value.map (.own 0), .map (.own 1), .map (.own 2), .map (.own 3)],
      threeOnes.Founded v := by
    have hdeep : ∀ v ∈ [Value.map (.own 0), .map (.own 1), .map (.own 2), .map (.own 3)],
        threeOnes.AtMostDeep 3 v := by decide
    exact fun v hv => (hdeep v hv).founded
  obtain ⟨-, -, -, -, hequals⟩ := equality_equivalence threeOnes hkeyed
  have hones : ∀ v ∈ [Value.map (.own 0), .map (.own 1), .map (.own 2)], threeOnes.Founded v :=
    fun v hv => hfounded v (List.Sublist.subset (by simp) hv)
  have hpair : ∀ v ∈ [Value.map (.own 0), .map (.own 3)], threeOnes.Founded v :=
    fun v hv => hfounded v (List.Sublist.subset (by simp) hv)
  obtain ⟨b, hb, hrun⟩ := hequals (fun _ _ => pure .nil) _ (List.cons_ne_nil _ _) hones
  have hequal : ∀ u ∈ [Value.map (.own 0), .map (.own 1), .map (.own 2)],
      ∀ v ∈ [Value.map (.own 0), .map (.own 1), .map (.own 2)],
        Passes (threeOnes.equal .unbounded) u v := by
    decide +kernel
  obtain rfl := hb.2 hequal
  obtain ⟨b', hb', hrun'⟩ := hequals (fun _ _ => pure .nil) _ (List.cons_ne_nil _ _) hpair
  have hunequal : ¬ Passes (threeOnes.equal .unbounded) (.map (.own 0)) (.map (.own 3)) := by
    decide +kernel
  obtain rfl : b' = false := Bool.eq_false_iff.2 fun htrue =>
    hunequal (hb'.1 htrue _ (by simp) _ (by simp))
  exact ⟨hkeyed, hfounded, hrun _ (by decide), hrun' _ (by decide)⟩

end TemplateLisp
