import Mathlib.Data.List.Forall2
import TemplateLisp.Datum.Basic
import TemplateLisp.World.Equality

/-!
# Keys that are the same

To be one key of a map is symmetric and transitive, for the data of a map literal
(`Datum.sameKey_iff`) and for the values of a heap (`World.sameKey_symm`, `World.sameKey_trans`). It
is not reflexive for data: not-a-number is no number's key.

So an entry that is written replaces the value of at most one other, and of none under another key:
`Datum.putEntry_values` says this of the values of a literal, `World.findKey?_putKey` of what is
found in a map.
-/

namespace TemplateLisp

/-- Numbers of equal value are those with one place in the order. -/
theorem Number.eqv_iff {a b : Number} :
    a.eqv b = true ↔ ∃ m, a.magnitude? = some m ∧ b.magnitude? = some m := by
  unfold Number.eqv
  split
  · rename_i m n
    simp only [decide_eq_true_eq, magnitude?, Option.some.injEq]
    constructor
    · rintro rfl
      exact ⟨_, rfl, rfl⟩
    · rintro ⟨_, rfl, h⟩
      simpa [Rat.ofInt] using h.symm
  · cases a.magnitude? with
    | none => simp
    | some x =>
      cases b.magnitude? with
      | none => simp
      | some y => simp [eq_comm]

theorem Number.eqv_symm {a b : Number} (h : a.eqv b = true) : b.eqv a = true := by
  obtain ⟨m, ha, hb⟩ := eqv_iff.1 h
  exact eqv_iff.2 ⟨m, hb, ha⟩

theorem Number.eqv_trans {a b c : Number} (hab : a.eqv b = true) (hbc : b.eqv c = true) :
    a.eqv c = true := by
  obtain ⟨m, ha, hb⟩ := eqv_iff.1 hab
  obtain ⟨m', hb', hc⟩ := eqv_iff.1 hbc
  obtain rfl : m = m' := Option.some.inj (hb.symm.trans hb')
  exact eqv_iff.2 ⟨m, ha, hc⟩

/-- A number that is one has a place in the order. -/
theorem Number.exists_magnitude {a : Number} (h : a.isNan = false) : ∃ m,
    a.magnitude? = some m := by
  cases a with
  | int n => exact ⟨_, rfl⟩
  | float x =>
    cases x with
    | finite | infinite => exact ⟨_, rfl⟩
    | nan => cases h
  | dec d =>
    cases d with
    | finite | infinite => exact ⟨_, rfl⟩
    | nan => cases h

/-! ## Keys of a map literal -/

namespace Datum

/-- What a key of a map literal is told apart by: the value of a number or truth value, or the datum
itself. -/
def keyClass? : Datum → Option (Number.Magnitude ⊕ Datum)
  | .num n => n.magnitude?.map .inl
  | .bool b => (Number.int (if b then 1 else 0)).magnitude?.map .inl
  | .nil => some (.inr .nil)
  | .null => some (.inr .null)
  | .str s => some (.inr (.str s))
  | .wide s => some (.inr (.wide s))
  | .sym s => some (.inr (.sym s))
  | _ => none

theorem sameKey_iff {a b : Datum} :
    sameKey a b = true ↔ ∃ c, a.keyClass? = some c ∧ b.keyClass? = some c := by
  cases a <;> cases b <;> simp [sameKey, keyClass?, Number.eqv_iff]
  case bool.bool b c => cases b <;> cases c <;> simp [Number.magnitude?, Rat.ofInt]
  case bool.num b n => simp only [and_comm]
  case str.str s t => exact eq_comm
  case wide.wide s t => exact eq_comm
  case sym.sym s t => exact eq_comm

theorem sameKey_symm {a b : Datum} (h : sameKey a b = true) : sameKey b a = true := by
  obtain ⟨c, ha, hb⟩ := sameKey_iff.1 h
  exact sameKey_iff.2 ⟨c, hb, ha⟩

theorem sameKey_trans {a b c : Datum} (hab : sameKey a b = true) (hbc : sameKey b c = true) :
    sameKey a c = true := by
  obtain ⟨x, ha, hb⟩ := sameKey_iff.1 hab
  obtain ⟨y, hb', hc⟩ := sameKey_iff.1 hbc
  cases hb.symm.trans hb'
  exact sameKey_iff.2 ⟨x, ha, hc⟩

/-- Data that are one key are the same key as anything else. -/
theorem sameKey_congr {a b : Datum} (h : sameKey a b = true) (k : Datum) :
    sameKey a k = sameKey b k :=
  Bool.eq_iff_iff.2 ⟨sameKey_trans (sameKey_symm h), sameKey_trans h⟩

/-- No two entries have one key. -/
def DistinctKeys (es : List (Datum × Datum)) : Prop :=
  es.Pairwise fun e e' => sameKey e.1 e'.1 = false

theorem putEntry_keys {k v : Datum} {es : List (Datum × Datum)} {e : Datum × Datum}
    (he : e ∈ putEntry k v es) : e.1 = k ∨ ∃ e' ∈ es, e'.1 = e.1 := by
  induction es with
  | nil =>
    rw [putEntry, List.mem_singleton] at he
    exact .inl (by rw [he])
  | cons e' es ih =>
    obtain ⟨k', v'⟩ := e'
    rw [putEntry] at he
    split at he
    · rcases List.mem_cons.1 he with rfl | he
      · exact .inr ⟨_, .head _, rfl⟩
      · exact .inr ⟨e, .tail _ he, rfl⟩
    · rcases List.mem_cons.1 he with rfl | he
      · exact .inr ⟨_, .head _, rfl⟩
      · rcases ih he with hk | ⟨x, hx, hkey⟩
        · exact .inl hk
        · exact .inr ⟨x, .tail _ hx, hkey⟩

theorem DistinctKeys.putEntry {es : List (Datum × Datum)} (h : DistinctKeys es) (k v : Datum) :
    DistinctKeys (Datum.putEntry k v es) := by
  induction es with
  | nil => exact List.pairwise_singleton ..
  | cons e es ih =>
    obtain ⟨k', v'⟩ := e
    obtain ⟨hhead, htail⟩ := List.pairwise_cons.1 h
    rw [Datum.putEntry]
    split
    · exact List.pairwise_cons.2 ⟨hhead, htail⟩
    · rename_i hne
      refine List.pairwise_cons.2 ⟨fun x hx => ?_, ih htail⟩
      rcases putEntry_keys hx with hk | ⟨y, hy, hkey⟩
      · rw [hk]
        simpa using hne
      · rw [← hkey]
        exact hhead y hy

/-- The values after an entry is written, of the keys that `q` selects: those of the other keys, and
the new one. -/
theorem putEntry_values {q : Datum → Bool} (hq : ∀ {a b}, sameKey a b = true → q a = q b)
    (k v : Datum) {es : List (Datum × Datum)} (h : DistinctKeys es) :
    (((putEntry k v es).filter fun e => q e.1).map Prod.snd).Perm
      ((es.filter fun e => q e.1 && !sameKey e.1 k).map Prod.snd ++ if q k then [v] else []) := by
  induction es with
  | nil => cases hk : q k <;> simp [putEntry, hk]
  | cons e es ih =>
    obtain ⟨k', v'⟩ := e
    obtain ⟨hhead, htail⟩ := List.pairwise_cons.1 h
    rw [putEntry]
    by_cases hsame : sameKey k' k = true
    · -- the keys behind are other keys than `k'`, so other keys than `k`
      have hrest : (es.filter fun e => q e.1 && !sameKey e.1 k) = es.filter fun e => q e.1 := by
        refine List.filter_congr fun x hx => ?_
        have hother : sameKey x.1 k = false := by
          rw [Bool.eq_false_iff]
          intro hx'
          have hsame' := sameKey_trans hsame (sameKey_symm hx')
          rw [hhead x hx] at hsame'
          cases hsame'
        rw [hother, Bool.not_false, Bool.and_true]
      simp only [hsame, if_true, List.filter_cons, hq hsame, Bool.not_true, Bool.and_false,
        Bool.false_eq_true, if_false, hrest]
      cases q k with
      | false => simp
      | true => simpa using (List.perm_append_singleton v _).symm
    · simp only [hsame, Bool.false_eq_true, if_false, List.filter_cons, Bool.not_false,
        Bool.and_true]
      cases q k' with
      | false => exact ih htail
      | true => exact (ih htail).cons v'

end Datum

/-! ## Keys of the maps of a heap -/

/-- Two relations between lists in a row, element by element. -/
theorem forall₂_trans {α : Type} {R : α → α → Prop} {xs ys zs : List α} (hxy : List.Forall₂ R xs ys)
    (hyz : List.Forall₂ R ys zs) (h : ∀ {x y z}, R x y → R y z → R x z) : List.Forall₂ R xs zs := by
  induction hxy generalizing zs with
  | nil => exact hyz
  | cons hx _ ih =>
    cases hyz with
    | cons hy hyz => exact .cons (h hx hy) (ih hyz)

namespace World

/-- Values are one key if they are one value, numbers of equal value, or fixed sequences of the same
keys. -/
theorem sameKeyAt_succ_iff {w : World} {n : Nat} {a b : Value} :
    w.sameKeyAt (n + 1) a b = true ↔ a = b ∨
      (∃ x y, a.numeric? = some x ∧ b.numeric? = some y ∧ x.eqv y = true) ∨
      ∃ r s, a = .tuple r ∧ b = .tuple s ∧
        List.Forall₂ (fun x y => w.sameKeyAt n x y = true) (w.tuple r) (w.tuple s) := by
  conv_lhs => unfold sameKeyAt
  rw [Bool.or_eq_true, decide_eq_true_eq]
  refine or_congr_right ?_
  split
  · rename_i x y ha hb
    simp only [ha, hb, Option.some.injEq, exists_and_left, exists_eq_left', iff_self_or]
    rintro ⟨r, rfl, s, -, -⟩
    cases ha
  · rename_i hnumeric
    constructor
    · intro h
      split at h
      · rename_i r s
        refine .inr ⟨r, s, rfl, rfl, ?_⟩
        simp only [Bool.and_eq_true, decide_eq_true_eq, List.all_eq_true] at h
        exact List.forall₂_iff_zip.2 ⟨h.1, fun hxy => h.2 _ hxy⟩
      · cases h
    · rintro (⟨x, y, ha, hb, -⟩ | ⟨r, s, rfl, rfl, h⟩)
      · exact (hnumeric x y ha hb).elim
      · obtain ⟨hlength, hzip⟩ := List.forall₂_iff_zip.1 h
        simp only [Bool.and_eq_true, decide_eq_true_eq, List.all_eq_true]
        exact ⟨hlength, fun e he => hzip he⟩

theorem sameKeyAt_symm {w : World} {n : Nat} {a b : Value} (h : w.sameKeyAt n a b = true) :
    w.sameKeyAt n b a = true := by
  induction n generalizing a b with
  | zero => cases h
  | succ n ih =>
    rcases sameKeyAt_succ_iff.1 h with rfl | ⟨x, y, ha, hb, hxy⟩ | ⟨r, s, rfl, rfl, hrs⟩
    · exact sameKeyAt_succ_iff.2 (.inl rfl)
    · exact sameKeyAt_succ_iff.2 (.inr (.inl ⟨y, x, hb, ha, Number.eqv_symm hxy⟩))
    · exact sameKeyAt_succ_iff.2 (.inr (.inr ⟨s, r, rfl, rfl, (hrs.imp fun _ _ => ih).flip⟩))

theorem sameKeyAt_trans {w : World} {n : Nat} {a b c : Value} (hab : w.sameKeyAt n a b = true)
    (hbc : w.sameKeyAt n b c = true) : w.sameKeyAt n a c = true := by
  induction n generalizing a b c with
  | zero => cases hab
  | succ n ih =>
    rcases sameKeyAt_succ_iff.1 hab with rfl | ⟨x, y, ha, hb, hxy⟩ | ⟨r, s, rfl, rfl, hrs⟩
    · exact hbc
    · rcases sameKeyAt_succ_iff.1 hbc with rfl | ⟨y', z, hb', hc, hyz⟩ | ⟨r, s, rfl, rfl, -⟩
      · exact hab
      · obtain rfl : y = y' := Option.some.inj (hb.symm.trans hb')
        exact sameKeyAt_succ_iff.2 (.inr (.inl ⟨x, z, ha, hc, Number.eqv_trans hxy hyz⟩))
      · cases hb
    · rcases sameKeyAt_succ_iff.1 hbc with rfl | ⟨x, y, hb, -, -⟩ | ⟨s', t, hs, rfl, hst⟩
      · exact hab
      · cases hb
      · cases hs
        exact sameKeyAt_succ_iff.2 (.inr (.inr ⟨r, t, rfl, rfl, forall₂_trans hrs hst ih⟩))

theorem sameKey_refl (w : World) (a : Value) : w.sameKey a a = true :=
  sameKeyAt_succ_iff.2 (.inl rfl)

theorem sameKey_symm {w : World} {a b : Value} (h : w.sameKey a b = true) : w.sameKey b a = true :=
  sameKeyAt_symm h

theorem sameKey_trans {w : World} {a b c : Value} (hab : w.sameKey a b = true)
    (hbc : w.sameKey b c = true) : w.sameKey a c = true :=
  sameKeyAt_trans hab hbc

/-- Values that are one key are the same key as anything else. -/
theorem sameKey_congr {w : World} {a b : Value} (h : w.sameKey a b = true) (k : Value) :
    w.sameKey k a = w.sameKey k b :=
  Bool.eq_iff_iff.2 ⟨fun hk => sameKey_trans hk h, fun hk => sameKey_trans hk (sameKey_symm h)⟩

theorem findKey?_cons (w : World) (e : Value × Value) (es : List (Value × Value)) (k : Value) :
    w.findKey? (e :: es) k = if w.sameKey e.1 k then some e.2 else w.findKey? es k := by
  rw [findKey?, List.find?_cons]
  cases w.sameKey e.1 k <;> rfl

/-- Writing an entry changes what is found under its key and nothing else. -/
theorem findKey?_putKey (w : World) (c v k : Value) (es : List (Value × Value)) :
    w.findKey? (w.putKey c v es) k = if w.sameKey c k then some v else w.findKey? es k := by
  induction es with
  | nil => rw [putKey, findKey?_cons]
  | cons e es ih =>
    obtain ⟨k', v'⟩ := e
    rw [putKey]
    by_cases hsame : w.sameKey k' c = true
    · have hk : w.sameKey k' k = w.sameKey c k :=
        Bool.eq_iff_iff.2 ⟨sameKey_trans (sameKey_symm hsame), sameKey_trans hsame⟩
      rw [if_pos hsame, findKey?_cons, findKey?_cons, hk]
      cases w.sameKey c k <;> rfl
    · rw [if_neg hsame, findKey?_cons, findKey?_cons, ih]
      by_cases hk : w.sameKey k' k = true
      · have hother : ¬ w.sameKey c k = true := fun hc => hsame (sameKey_trans hk (sameKey_symm hc))
        rw [if_pos hk, if_neg hother, if_pos hk]
      · rw [if_neg hk, if_neg hk]

/-- Writing under a key that is there keeps the keys as they are. -/
theorem putKey_keys (w : World) {c : Value} (v : Value) {es : List (Value × Value)}
    (hc : c ∈ es.map Prod.fst) : (w.putKey c v es).map Prod.fst = es.map Prod.fst := by
  induction es with
  | nil => cases hc
  | cons e es ih =>
    obtain ⟨k', v'⟩ := e
    rw [putKey]
    split
    · rfl
    · rename_i hother
      rcases List.mem_cons.1 hc with rfl | hc
      · exact absurd (w.sameKey_refl c) hother
      · rw [List.map_cons, List.map_cons, ih hc]

/-- A key that matches is one of the keys. -/
theorem matchingKey?_mem {w : World} {room : Room} {k c : Value} {es : List (Value × Value)}
    (h : w.matchingKey? room k es = .ok (some c)) :
    c ∈ es.map Prod.fst := by
  induction es with
  | nil => cases h
  | cons e es ih =>
    obtain ⟨k', v'⟩ := e
    rw [matchingKey?] at h
    cases hmatch : w.keysMatch room k k' with
    | error s =>
      rw [hmatch] at h
      cases h
    | ok b =>
      rw [hmatch] at h
      cases b with
      | true =>
        cases h
        exact .head _
      | false => exact .tail _ (ih h)

end World

end TemplateLisp
