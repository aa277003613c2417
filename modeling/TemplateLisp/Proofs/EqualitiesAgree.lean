import TemplateLisp.Proofs.Equality

/-!
# The two equalities agree

The equality of the language and the one of the host are two walks through data. They part over
truth values, which the host takes for numbers, over fixed sequences, which the language takes for
vectors, and over not-a-number, of which the language lets one and the same object pass. The host in
turn passes chains of pairs at the first pair that they share.

On values that have none of the three anywhere inside of them (`World.Uncontested`) and from the
first of which the way down ends, both come to an answer, and it is the same (`equalities_agree`).
The walks are compared level by level: `Agree` is kept by every way in which an answer is put
together from answers one level below, and the shared pair is where it needs that the language lets
every value equal itself.
-/

namespace TemplateLisp

namespace World

/-- Two tests come to an end with the same answer. -/
def Agree (x y : Except Stop Bool) : Prop := ∃ b, x = .ok b ∧ y = .ok b

namespace Agree

variable {x y x' y' : Except Stop Bool}

theorem ok (b : Bool) : Agree (.ok b) (.ok b) := ⟨b, rfl, rfl⟩

theorem and (h : Agree x y) (h' : Agree x' y') :
    Agree (do if ← x then x' else return false) (do if ← y then y' else return false) := by
  obtain ⟨b, rfl, rfl⟩ := h
  cases b with
  | true => exact h'
  | false => exact ok false

end Agree

/-! ## Values on which both have the same rule -/

/-- The values over which the two equalities part: truth values, fixed sequences and
not-a-number. -/
def isContested : Value → Bool
  | .bool _ => true
  | .tuple _ => true
  | .num x => x.isNan
  | _ => false

/-- Neither the value nor anything inside of it, keys of maps included, is one that the two
equalities part over. -/
def Uncontested (w : World) (v : Value) : Prop := ∀ x, w.Includes v x → isContested x = false

section
variable {w : World}

theorem Uncontested.self {v : Value} (h : w.Uncontested v) : isContested v = false := h v .refl

theorem Uncontested.includes {v x : Value} (h : w.Uncontested v) (hx : w.Includes v x) :
    w.Uncontested x :=
  fun y hy => h y (hx.trans hy)

/-- It is enough to look at some values that are made of nothing but each other. -/
theorem uncontested_of_closed {vs : List Value}
    (h : ∀ v ∈ vs, isContested v = false ∧ ∀ x ∈ w.components v, x ∈ vs) {v : Value} (hv : v ∈ vs) :
    w.Uncontested v := by
  intro x hx
  have hmem : x ∈ vs := by
    induction hx with
    | refl => exact hv
    | tail _ hstep ih => exact (h _ ih).2 _ hstep
  exact (h x hmem).1

end

theorem eqv_self {x : Number} (h : x.isNan = false) : x.eqv x = true := by
  obtain ⟨m, hm⟩ := Number.exists_magnitude h
  exact Number.eqv_iff.2 ⟨m, hm, hm⟩

/-! ## A value and itself -/

section
variable {w : World} {n : Nat} {test test' : Value → Value → Except Stop Bool}

theorem allPairs_self {xs : List Value} (h : ∀ x ∈ xs, Passes test x x) :
    allPairs test xs xs = .ok true := by
  rw [allPairs_eq_ok_true_iff, List.forall₂_same]
  exact h

theorem passes_sameOr_self (test : Value → Value → Except Stop Bool) (a : Value) :
    Passes (sameOr test) a a :=
  if_pos rfl

/-- The host lets a value pass for itself if it is no number that equals nothing. What is inside of
the value is not looked at. -/
theorem looselyEqualAt_self (hw : w.Keyed) {a : Value} (ha : isContested a = false) (n : Nat) :
    w.looselyEqualAt (n + 1) a a = .ok true := by
  unfold looselyEqualAt
  cases a with
  | cell r => exact if_pos (by simp)
  | vector r => exact (if_pos rfl).trans (allPairs_self fun x _ => passes_sameOr_self _ x)
  | map r =>
    refine (if_pos rfl).trans (entriesAgree_eq_ok_true_iff.2 fun e he => ?_)
    exact ⟨e.2, (hw r).findKey? he, passes_sameOr_self _ e.2⟩
  | num x => exact congrArg Except.ok (eqv_self ha)
  | bool | tuple => cases ha
  | _ => simp [Value.numeric?]

/-- The language lets a list pass for itself without a look at which pairs it is. -/
theorem Spine.spinesAgree_self {a tail : Value} {cells : List Cell} (h : w.Spine a cells tail)
    (htest : ∀ x, w.Includes a x → Passes test x x) {k : Nat} (hk : cells.length < k) :
    w.spinesAgree false test test k a a = .ok true := by
  induction h generalizing k with
  | @stop a ha =>
    obtain ⟨k, rfl⟩ : ∃ m, k = m + 1 := ⟨k - 1, by omega⟩
    rw [spinesAgree]
    · exact htest a .refl
    · exact fun r _ hr _ => ha r hr
  | @pair r cells tail rest ih =>
    simp only [List.length_cons] at hk
    obtain ⟨k, rfl⟩ : ∃ m, k = m + 1 := ⟨k - 1, by omega⟩
    refine (spinesAgree_cells k r r).2 ⟨htest _ (.single (mem_components_car r)), ?_⟩
    exact ih (fun x hx => htest x (hx.head (mem_components_cdr r))) (by omega)

end

/-! ## Two values -/

section
variable {w : World} {n : Nat} {test test' : Value → Value → Except Stop Bool}

theorem agree_allPairs {xs ys : List Value} (h : ∀ x ∈ xs, ∀ y ∈ ys, Agree (test x y) (test' x y)) :
    Agree (allPairs test xs ys) (allPairs test' xs ys) := by
  induction xs generalizing ys with
  | nil => cases ys <;> exact .ok _
  | cons x xs ih =>
    cases ys with
    | nil => exact .ok _
    | cons y ys =>
      refine (h x List.mem_cons_self y List.mem_cons_self).and (ih fun x' hx' y' hy' => ?_)
      exact h x' (List.mem_cons_of_mem x hx') y' (List.mem_cons_of_mem y hy')

/-- What is found under a key is the value of an entry. -/
theorem mem_of_findKey? {es : List (Value × Value)} {k v : Value} (h : w.findKey? es k = some v) :
    ∃ e ∈ es, e.2 = v := by
  obtain ⟨e, he, rfl⟩ := Option.map_eq_some_iff.1 h
  exact ⟨e, List.mem_of_find?_eq_some he, rfl⟩

theorem agree_entriesAgree {es fs : List (Value × Value)}
    (h : ∀ e ∈ es, ∀ f ∈ fs, Agree (test e.2 f.2) (test' e.2 f.2)) :
    Agree (w.entriesAgree test fs es) (w.entriesAgree test' fs es) := by
  induction es with
  | nil => exact .ok _
  | cons e es ih =>
    obtain ⟨k, v⟩ := e
    rw [entriesAgree, entriesAgree]
    cases hu : w.findKey? fs k with
    | none => exact .ok _
    | some u =>
      obtain ⟨f, hf, rfl⟩ := mem_of_findKey? hu
      refine (h (k, v) List.mem_cons_self f hf).and (ih fun e he => ?_)
      exact h e (List.mem_cons_of_mem _ he)

/-- Two chains, of which the host's walk stops at a pair that they share. From there on the other
walk compares every element with itself. -/
theorem Spine.agree_spinesAgree {a b tail : Value} {cells : List Cell} (h : w.Spine a cells tail)
    (htest : ∀ x, w.Includes a x → ∀ y, w.Includes b y → Agree (test x y) (test' x y))
    (hself : ∀ x, w.Includes a x → w.Includes b x → Passes test x x) {k : Nat}
    (hk : cells.length < k) :
    Agree (w.spinesAgree false test test k a b) (w.spinesAgree true test' test' k a b) := by
  induction h generalizing k b with
  | @stop a ha =>
    obtain ⟨k, rfl⟩ : ∃ m, k = m + 1 := ⟨k - 1, by omega⟩
    rw [spinesAgree, spinesAgree]
    · exact htest a .refl b .refl
    all_goals exact fun r _ hr _ => ha r hr
  | @pair r cells tail rest ih =>
    have hspine : w.Spine (.cell r) (w.cell r :: cells) tail := .pair rest
    cases b with
    | cell s =>
      by_cases hshared : r = s
      · obtain rfl := hshared
        refine ⟨true, hspine.spinesAgree_self (fun x hx => hself x hx hx) hk, ?_⟩
        obtain ⟨k, rfl⟩ : ∃ m, k = m + 1 := ⟨k - 1, by omega⟩
        exact if_pos (by simp)
      · simp only [List.length_cons] at hk
        obtain ⟨k, rfl⟩ : ∃ m, k = m + 1 := ⟨k - 1, by omega⟩
        rw [spinesAgree, spinesAgree, Bool.false_and, if_neg Bool.false_ne_true, Bool.true_and,
          if_neg (by simpa using hshared)]
        have hcars := htest _ (.single (mem_components_car r)) _ (.single (mem_components_car s))
        refine hcars.and (ih (fun x hx y hy => ?_) (fun x hx hx' => ?_) (by omega))
        · exact htest x (hx.head (mem_components_cdr r)) y (hy.head (mem_components_cdr s))
        · exact hself x (hx.head (mem_components_cdr r)) (hx'.head (mem_components_cdr s))
    | _ =>
      obtain ⟨k, rfl⟩ : ∃ m, k = m + 1 := ⟨k - 1, by omega⟩
      exact htest _ .refl _ .refl

/-! ## One level -/

/-- There is more to compare than which values they are: two numbers, two pairs, two vectors or two
maps. -/
inductive SameKind : Value → Value → Prop where
  | number (x y : Number) : SameKind (.num x) (.num y)
  | pair (r s : CellRef) : SameKind (.cell r) (.cell s)
  | vector (r s : VectorRef) : SameKind (.vector r) (.vector s)
  | map (r s : MapRef) : SameKind (.map r) (.map s)

theorem vector_of_sequence? {a : Value} {xs : List Value} (h : w.sequence? a = some xs)
    (ha : isContested a = false) : ∃ r, a = .vector r := by
  cases a with
  | vector r => exact ⟨r, rfl⟩
  | tuple => cases ha
  | _ => cases h

theorem num_of_numeric? {a : Value} {x : Number} (h : a.numeric? = some x)
    (ha : isContested a = false) : ∃ x, a = .num x := by
  cases a with
  | num x => exact ⟨x, rfl⟩
  | bool => cases ha
  | _ => cases h

/-- Other values are equal for neither, unless they are one. -/
theorem unequal_of_not_sameKind {a b : Value} (ha : isContested a = false)
    (hb : isContested b = false) (hne : a ≠ b) (hkind : ¬ SameKind a b) (n : Nat) :
    w.equalAt (n + 1) a b = .ok false ∧ w.looselyEqualAt (n + 1) a b = .ok false := by
  constructor
  · unfold equalAt
    rw [if_neg hne]
    split
    · rfl
    · rfl
    · exact absurd (.number ..) hkind
    · exact absurd (.pair ..) hkind
    · exact absurd (.map ..) hkind
    · split
      · rename_i hxs hys
        obtain ⟨r, rfl⟩ := vector_of_sequence? hxs ha
        obtain ⟨s, rfl⟩ := vector_of_sequence? hys hb
        exact absurd (.vector ..) hkind
      · rfl
  · unfold looselyEqualAt
    split
    · exact absurd (.pair ..) hkind
    · exact absurd (.vector ..) hkind
    · cases ha
    · exact absurd (.map ..) hkind
    · split
      · rename_i hx hy
        obtain ⟨x, rfl⟩ := num_of_numeric? hx ha
        obtain ⟨y, rfl⟩ := num_of_numeric? hy hb
        exact absurd (.number ..) hkind
      · rw [decide_eq_false hne]

/-- At a level at which a comparison comes to an end, the language lets a value pass for itself. -/
theorem Agree.self {x : Value} (h : Agree (w.equalAt n x x) (w.looselyEqualAt n x x)) :
    Passes (w.equalAt n) x x := by
  obtain ⟨b, hb, -⟩ := h
  cases n with
  | zero => cases hb
  | succ n => exact equalAt_self n x

/-- The host looks whether two values are one before it goes into them, which makes no
difference. -/
theorem Agree.sameOr {x y : Value} (h : Agree (w.equalAt n x y) (w.looselyEqualAt n x y)) :
    Agree (w.equalAt n x y) (World.sameOr (w.looselyEqualAt n) x y) := by
  by_cases hsame : x = y
  · obtain rfl := hsame
    exact ⟨true, h.self, passes_sameOr_self _ x⟩
  · rwa [World.sameOr, if_neg hsame]

/-- Two maps with a key of the first missing in the second are equal for the host neither. -/
theorem agree_entries {es fs : List (Value × Value)}
    (h : ∀ e ∈ es, ∀ f ∈ fs, Agree (test e.2 f.2) (test' e.2 f.2)) :
    Agree (if w.keysWithin es fs then w.entriesAgree test fs es else .ok false)
      (w.entriesAgree test' fs es) := by
  have hagree := agree_entriesAgree (w := w) h
  split
  · exact hagree
  · rename_i hkeys
    obtain ⟨b, hb, hb'⟩ := hagree
    cases b with
    | false => exact ⟨false, rfl, hb'⟩
    | true =>
      refine absurd (keysWithin_iff.2 fun e he => ?_) hkeys
      obtain ⟨u, hu, -⟩ := entriesAgree_eq_ok_true_iff.1 hb e he
      exact findKey?_isSome_iff.1 (hu ▸ rfl)

/-- Two pairs, from what is inside of them. The first pairs are compared by hand: their references
lie not inside of them. -/
theorem Founded.agree_pairs {r s : CellRef} (h : w.Founded (.cell r)) (hrs : r ≠ s)
    (hbelow : ∀ x, w.Inside (.cell r) x → ∀ y, w.Inside (.cell s) y →
      Agree (w.equalAt n x y) (w.looselyEqualAt n x y)) :
    Agree (w.spinesAgree false (w.equalAt n) (w.equalAt n) w.spineFuel (.cell r) (.cell s))
      (w.spinesAgree true (w.looselyEqualAt n) (w.looselyEqualAt n) w.spineFuel (.cell r)
        (.cell s)) := by
  have hcars := hbelow _ ⟨_, mem_components_car r, .refl⟩ _ ⟨_, mem_components_car s, .refl⟩
  have hcdrs : ∀ x, w.Includes (w.cell r).cdr x → ∀ y, w.Includes (w.cell s).cdr y →
      Agree (w.equalAt n x y) (w.looselyEqualAt n x y) :=
    fun x hx y hy => hbelow x ⟨_, mem_components_cdr r, hx⟩ y ⟨_, mem_components_cdr s, hy⟩
  obtain ⟨cells, tail, hspine, hlength⟩ := h.spine
  cases hspine with
  | stop hr => exact absurd rfl (hr r)
  | @pair _ rest _ hrest =>
    rw [spineFuel, spinesAgree, spinesAgree, Bool.false_and, if_neg Bool.false_ne_true,
      Bool.true_and,
      if_neg (by simpa using hrs)]
    refine hcars.and (hrest.agree_spinesAgree hcdrs (fun x hx hx' => (hcdrs x hx x hx').self) ?_)
    have hsquare := Nat.le_mul_self w.cells.size
    simp only [List.length_cons] at hlength
    omega

/-- One level of both, from the levels below. -/
theorem Founded.agree_succ (hw : w.Keyed) {a b : Value} (h : w.Founded a)
    (ha : w.Uncontested a) (hb : w.Uncontested b)
    (hbelow : ∀ x, w.Inside a x → ∀ y, w.Inside b y →
    Agree (w.equalAt n x y) (w.looselyEqualAt n x y)) :
    Agree (w.equalAt (n + 1) a b) (w.looselyEqualAt (n + 1) a b) := by
  by_cases hne : a = b
  · obtain rfl := hne
    exact ⟨true, equalAt_self n a, looselyEqualAt_self hw ha.self n⟩
  by_cases hkind : SameKind a b
  · have hcomponent : ∀ x ∈ w.components a, ∀ y ∈ w.components b,
        Agree (w.equalAt n x y) (w.looselyEqualAt n x y) :=
      fun x hx y hy => hbelow x ⟨x, hx, .refl⟩ y ⟨y, hy, .refl⟩
    unfold equalAt looselyEqualAt
    rw [if_neg hne]
    cases hkind with
    | number => exact .ok _
    | pair r s => exact h.agree_pairs (fun hrs => hne (congrArg Value.cell hrs)) hbelow
    | vector r s =>
      dsimp only [sequence?]
      split
      · exact agree_allPairs fun x hx y hy => (hcomponent x hx y hy).sameOr
      · exact .ok false
    | map r s =>
      dsimp only
      by_cases hlength : (w.entries r).length = (w.entries s).length
      · simp only [hlength, decide_true, Bool.true_and, if_true]
        exact agree_entries fun e he f hf =>
          Agree.sameOr (hcomponent e.2 (mem_components_value he) f.2 (mem_components_value hf))
      · simp only [hlength, decide_false, Bool.false_and, Bool.false_eq_true, if_false]
        exact .ok false
  · exact ⟨false, unequal_of_not_sameKind ha.self hb.self hne hkind n⟩

theorem AtMostDeep.agree (hw : w.Keyed) {a b : Value} (h : w.AtMostDeep n a)
    (ha : w.Uncontested a) (hb : w.Uncontested b) :
    Agree (w.equalAt (n + 1) a b) (w.looselyEqualAt (n + 1) a b) := by
  induction n generalizing a b with
  | zero =>
    refine h.founded.agree_succ hw ha hb fun x hx => ?_
    obtain ⟨m, hm, -⟩ := h.inside hx
    cases hm
  | succ n ih =>
    refine h.founded.agree_succ hw ha hb fun x hx y hy => ?_
    obtain ⟨m, hm, hdeep⟩ := h.inside hx
    cases hm
    exact ih hdeep (ha.includes hx.includes) (hb.includes hy.includes)

end

end World

/-- The two equalities agree. On values without truth values, fixed sequences and not-a-number
anywhere inside of them, keys of maps included, of which the way down from the first ends, the
equality of the language and that of the host both come to an answer, and it is the same. -/
theorem equalities_agree (w : World) (hw : w.Keyed) (a b : Value) (hfounded : w.Founded a)
    (ha : w.Uncontested a) (hb : w.Uncontested b) :
    ∃ e, w.equal .unbounded a b = .ok e ∧ w.looselyEqual .unbounded a b = .ok e :=
  hfounded.atMostDeep.agree hw ha hb

/-- The lists `(2 1)` and `(2.0 1)`, the second with the last pair of the first, and `(1)`, each of
them in a vector in a map. The keys of the maps are two, as an integer or as a double. -/
def sharedTails : World :=
  { World.empty with
    cells := #[⟨.int 1, .nil, none⟩, ⟨.int 2, .cell ⟨0⟩, none⟩,
      ⟨.num (.float (.finite false 1 1)), .cell ⟨0⟩, none⟩]
    vectors := #[[.cell ⟨1⟩, .str "x"], [.cell ⟨2⟩, .str "x"], [.cell ⟨0⟩, .str "x"]]
    maps := #[[(.int 2, .vector ⟨0⟩)], [(.num (.float (.finite false 1 1)), .vector ⟨1⟩)],
      [(.int 2, .vector ⟨2⟩)]] }

/-- What there is in `sharedTails`. -/
def sharedTailsValues : List Value :=
  [.map (.own 0), .map (.own 1), .map (.own 2), .vector ⟨0⟩, .vector ⟨1⟩, .vector ⟨2⟩, .cell ⟨0⟩,
    .cell ⟨1⟩, .cell ⟨2⟩, .int 1, .int 2, .num (.float (.finite false 1 1)), .str "x", .nil]

/-- The first two maps are equal for both equalities, the first and the last for neither. -/
theorem equalities_agree_sharedTails :
    sharedTails.Keyed ∧ sharedTails.Founded (.map (.own 0)) ∧
    (∀ v ∈ sharedTailsValues, sharedTails.Uncontested v) ∧
    sharedTails.equal .unbounded (.map (.own 0)) (.map (.own 1)) = .ok true ∧
    sharedTails.looselyEqual .unbounded (.map (.own 0)) (.map (.own 1)) = .ok true ∧
    sharedTails.equal .unbounded (.map (.own 0)) (.map (.own 2)) = .ok false ∧
    sharedTails.looselyEqual .unbounded (.map (.own 0)) (.map (.own 2)) = .ok false := by
  have hkeyed : sharedTails.Keyed := by
    intro r
    match r with
    | .own 0 | .own 1 | .own 2 => exact List.pairwise_singleton ..
    | .own (i + 3) | .vars env => exact .nil
  have hdeep : sharedTails.AtMostDeep 4 (.map (.own 0)) := by decide
  have huncontested : ∀ v ∈ sharedTailsValues, sharedTails.Uncontested v := by
    have hclosed : ∀ v ∈ sharedTailsValues, World.isContested v = false ∧
        ∀ x ∈ sharedTails.components v, x ∈ sharedTailsValues := by decide
    exact fun v hv => World.uncontested_of_closed hclosed hv
  have hagree (index : Nat) (hmem : .map (.own index) ∈ sharedTailsValues) {e : Bool}
      (he : sharedTails.equal .unbounded (.map (.own 0)) (.map (.own index)) = .ok e) :
      sharedTails.looselyEqual .unbounded (.map (.own 0)) (.map (.own index)) = .ok e := by
    obtain ⟨e', he', hloosely⟩ := equalities_agree sharedTails hkeyed _ _ hdeep.founded
      (huncontested (.map (.own 0)) (by decide)) (huncontested _ hmem)
    obtain rfl : e = e' := Except.ok.inj (he.symm.trans he')
    exact hloosely
  have hequal : sharedTails.equal .unbounded (.map (.own 0)) (.map (.own 1)) = .ok true := by
    decide +kernel
  have hunequal : sharedTails.equal .unbounded (.map (.own 0)) (.map (.own 2)) = .ok false := by
    decide +kernel
  exact ⟨hkeyed, hdeep.founded, huncontested, hequal, hagree 1 (by decide) hequal, hunequal,
    hagree 2 (by decide) hunequal⟩

end TemplateLisp
