import TemplateLisp.Builtin.Basic
import TemplateLisp.Eval.SpecialForm
import TemplateLisp.Proofs.CallBacks
import TemplateLisp.Host.Sample

/-!
# Accessors and loops see the same elements

`doseq` walks through a sequence step by step, the accessors take its elements at once or go
straight to one of them. All agree on what the elements are (`Sequences.accessors_agree`): those
that `World.contents?` says. The one exception is an index that is out of range and has so many
digits that it has no text: `nth` then fails when it makes its message.
-/

namespace TemplateLisp

/-! ## Loops -/

namespace Evaluator

section
variable (e : Evaluator) (site : Site) (name : Symbol) (body : List Value)
  (start : World) (s : Value)

/-- The turns of a loop through `s` as it was in the world `start`: a turn for each element, with
the variable bound to what shows it. After a turn that has changed `s` nothing is said. -/
inductive Turns : World → List Element → EStateM.Result Stop World Unit → Prop
  | over (w : World) : Turns w [] (.ok () w)
  | stops {w w₁ w₂ : World} {el : Element} {els : List Element} {x : Value} {st : Stop} :
    World.Shows w w₁ el x → w.Extends w₁ → (e.turn site name body x).run w₁ = .error st w₂ →
      Turns w (el :: els) (.error st w₂)
  | turn {w w₁ w₂ : World} {el : Element} {els : List Element} {x : Value}
    {r : EStateM.Result Stop World Unit} :
    World.Shows w w₁ el x → w.Extends w₁ → (e.turn site name body x).run w₁ = .ok () w₂ →
      start.SameSequence w₂ s → Turns w₂ els r → Turns w (el :: els) r
  | changed {w w₁ w₂ : World} {el : Element} {els : List Element} {x : Value}
    {r : EStateM.Result Stop World Unit} :
    World.Shows w w₁ el x → w.Extends w₁ → (e.turn site name body x).run w₁ = .ok () w₂ →
      ¬ start.SameSequence w₂ s → Turns w (el :: els) r

end

variable (e : Evaluator) (site : Site) (name : Symbol) (body : List Value)
  {start w : World} {s : Value}
  {els : List Element} {c : Cursor} {fuel : Nat}

/-- A loop from a place on has a turn for each element from there on. -/
theorem turns_of_walks [Host] (h : c.Walks start s els) (hw : start.SameSequence w s)
    (hfuel : els.length < fuel) :
    Turns e site name body start s w els ((e.turns site name body fuel c).run w) := by
  induction els generalizing c w fuel with
  | nil =>
    obtain ⟨n, rfl⟩ : ∃ n, fuel = n + 1 := ⟨fuel - 1, by omega⟩
    rw [turns, EStateM.run_bind, h.next_nil hw]
    exact .over w
  | cons el els ih =>
    obtain ⟨n, rfl⟩ : ∃ n, fuel = n + 1 := ⟨fuel - 1, by omega⟩
    obtain ⟨x, c', w₁, hnext, hshows, hextends, -, hwalks⟩ := h.next_cons hw site.room
    rw [turns, EStateM.run_bind, hnext]
    dsimp only
    rw [EStateM.run_bind]
    cases hturn : (e.turn site name body x).run w₁ with
    | error st w₂ => exact .stops hshows hextends hturn
    | ok u w₂ =>
      by_cases hsame : start.SameSequence w₂ s
      · exact .turn hshows hextends hturn hsame (ih hwalks hsame (Nat.lt_of_succ_lt_succ hfuel))
      · exact .changed hshows hextends hturn hsame

end Evaluator

namespace LoopSpec

variable {w : World} {v source : Value} {name : Symbol}

/-- The parts of `(name source)`. -/
theorem run_ofValue_pair (h : w.ListOf v [.sym name, source]) (room : Room) (form : String) :
    (ofValue room form v).run w = .ok ⟨name, source, none⟩ w := by
  obtain ⟨r, rfl, -, -⟩ := h.cons_inv
  rw [ofValue, EStateM.run_bind, h.properItems]
  rfl

end LoopSpec

namespace SpecialForm

variable (e : Evaluator) (site : Site) {name : Symbol} (body : List Value) {w w₁ : World}
  {specForm source s : Value} {els : List Element} {fuel : Nat}

/-- The source is evaluated once, before the first turn. -/
theorem run_doseq [Host] (hspec : w.ListOf specForm [.sym name, source])
    (hsource : (e.value site source).run w = .ok s w₁) :
    (loop e fuel site "doseq" "seq" false (specForm :: body)).run w =
      (Run.cursor "doseq" 1 s >>= fun c => e.turns site name body fuel c >>= fun _ =>
        pure .nil).run w₁ := by
  show (e.sequenceLoop fuel site "doseq" false specForm body).run w = _
  rw [Evaluator.sequenceLoop, EStateM.run_bind, LoopSpec.run_ofValue_pair hspec]
  dsimp only
  rw [EStateM.run_bind, hsource]
  simp only [Bool.false_and, Bool.false_eq_true, if_false]
  rfl

/-- A loop over a sequence has a turn for each element, and then the value `nil`. -/
theorem doseq_turns [Host] (hspec : w.ListOf specForm [.sym name, source])
    (hsource : (e.value site source).run w = .ok s w₁) (h : w₁.contents? s = some els)
    (hfuel : els.length < fuel) : ∃ r, e.Turns site name body w₁ s w₁ els r ∧
      (loop e fuel site "doseq" "seq" false (specForm :: body)).run w = match r with
        | .ok _ w' => .ok .nil w'
        | .error st w' => .error st w' := by
  obtain ⟨c, hcursor, hwalks, -⟩ := Cursor.walks_of_contents? h
  refine ⟨_, e.turns_of_walks site name body hwalks (.refl w₁ s) hfuel, ?_⟩
  rw [run_doseq e site body hspec hsource, EStateM.run_bind, Run.run_cursor hcursor]
  dsimp only
  rw [EStateM.run_bind]
  cases (e.turns site name body fuel c).run w₁ <;> rfl

/-- A loop over what is no sequence stops. -/
theorem doseq_refused [Host] (hspec : w.ListOf specForm [.sym name, source])
    (hsource : (e.value site source).run w = .ok s w₁) (h : w₁.cursor? s = none) :
    ∃ f, (loop e fuel site "doseq" "seq" false (specForm :: body)).run w =
      .error (.ofFault (.type f)) w₁ := by
  refine ⟨.argument "doseq" 1 "a sequence" (w₁.typeName s), ?_⟩
  rw [run_doseq e site body hspec hsource, EStateM.run_bind, Run.cursor, Run.run_look_bind, h]
  rfl

end SpecialForm

/-! ## What accessors give -/

namespace World

/-- The run gives a value with the property; what there was stays as it is. -/
def Makes (w : World) (x : Run Value) (P : World → Value → Prop) : Prop :=
  ∃ v w', x.run w = .ok v w' ∧ w.Extends w' ∧ P w' v

/-- The value shows the element, or is `nil` if there is none. -/
def ShowsOrNil (old w : World) : Option Element → Value → Prop
  | some el, v => Shows old w el v
  | none, v => v = .nil

/-- How an element is shown in a vector that has been made of a sequence: an entry as a vector. -/
def ShowsInVector (w : World) : Element → Value → Prop
  | .value x, v => v = x
  | .entry k x, v => ∃ r, v = .vector r ∧ r.index < w.vectors.size ∧ w.vector r = [k, x]

theorem ShowsInVector.keeps {w w' : World} {el : Element} {v : Value} (h : w.ShowsInVector el v)
    (hw : w.Keeps w') : w'.ShowsInVector el v := by
  cases el with
  | value => exact h
  | entry =>
    obtain ⟨r, rfl, hr, hvector⟩ := h
    exact ⟨r, rfl, Nat.lt_of_lt_of_le hr hw.vectors, (hw.vector r hr).trans hvector⟩

/-- What kind of sequence the reverse of a sequence is: of a text a text, of a vector a vector, of
everything else a list. -/
def IsReverseOf (w : World) (v : Value) : Value → Prop
  | .str _ => ∃ t, v = .str t
  | .vector _ => ∃ r, v = .vector r
  | _ => ∃ xs, w.ListOf v xs

variable {old w w' : World} {s v : Value} {els : List Element} {xs : List Value}

theorem contents?_vector {r : VectorRef} (h : w.vector r = xs) :
    w.contents? (.vector r) = some (xs.map .value) := by rw [World.contents?, h]

/-- Only a map has entries. -/
theorem values_of_contents? (h : w.contents? s = some els) (hs : ∀ r, s ≠ .map r) :
    ∃ vs : List Value, els = vs.map .value := by
  cases s with
  | nil =>
    cases h
    exact ⟨[], rfl⟩
  | cell r =>
    obtain ⟨xs, hels, -⟩ := listOf_of_contents? h
    exact ⟨xs, hels⟩
  | vector r | tuple r =>
    cases h
    exact ⟨_, rfl⟩
  | str t =>
    cases h
    exact ⟨t.toList.map fun c => .str (String.singleton c), (List.map_map ..).symm⟩
  | bytes bs =>
    cases h
    exact ⟨bs.map fun b => .int b.toNat, (List.map_map ..).symm⟩
  | map r => exact absurd rfl (hs r)
  | _ => cases h

theorem ShowsAll.keeps (h : ShowsAll old w els xs) (hw : w.Keeps w') : ShowsAll old w' els xs :=
  h.imp fun _ _ hx => hx.keeps hw

theorem ShowsAll.getElem? (h : ShowsAll old w els xs) {i : Nat} {el : Element}
    (hel : els[i]? = some el) :
    ∃ x, xs[i]? = some x ∧ Shows old w el x := by
  induction h generalizing i with
  | nil => cases hel
  | @cons _ x _ _ hx _ ih =>
    cases i with
    | zero =>
      cases hel
      exact ⟨x, rfl, hx⟩
    | succ i => exact ih hel

theorem ShowsAll.getD (h : ShowsAll old w els xs) (i : Nat) :
    ShowsOrNil old w els[i]? (xs[i]?.getD .nil) := by
  cases hel : els[i]? with
  | some el =>
    obtain ⟨x, hx, hshows⟩ := h.getElem? hel
    rw [hx]
    exact hshows
  | none =>
    rw [List.getElem?_eq_none_iff, h.length_eq, ← List.getElem?_eq_none_iff] at hel
    rw [hel]
    rfl

theorem ShowsAll.getLast? (h : ShowsAll old w els xs) :
    ShowsOrNil old w els.getLast? (xs.getLast?.getD .nil) := by
  rw [List.getLast?_eq_getElem?, List.getLast?_eq_getElem?, h.length_eq]
  exact h.getD _

section
variable {P : World → Value → Prop} {f : List Value → Value} (room : Room) (name : String)
  (h : w.contents? s = some els)
include h

theorem makes_of_items [Host] (hP : ∀ xs w', ShowsAll w w' els xs → P w' (f xs)) :
    w.Makes (do return f (← Run.items room name 0 s)) P := by
  obtain ⟨xs, w₁, hitems, hshows, hextends⟩ := Run.items_contents h room name 0
  refine ⟨f xs, w₁, ?_, hextends, hP xs w₁ hshows⟩
  rw [EStateM.run_bind, hitems]
  rfl

theorem makes_list_of_items [Host] {g : List Value → List Value}
    (hP : ∀ xs v w', ShowsAll w w' els xs → w'.ListOf v (g xs) → P w' v) :
    w.Makes (do Run.list (g (← Run.items room name 0 s))) P := by
  obtain ⟨xs, w₁, hitems, hshows, hextends⟩ := Run.items_contents h room name 0
  have hlist := newList_addList w₁ (g xs) (Nat.le_refl _) fun _ _ _ => rfl
  have hextends' := w₁.extends_addList (g xs) .nil
  refine ⟨_, _, ?_, hextends.trans hextends', hP xs _ _ (hshows.keeps hextends'.toKeeps) hlist.1⟩
  rw [EStateM.run_bind, hitems]
  exact Run.run_list (g xs) w₁

theorem makes_vector_of_items [Host] {g : List Value → List Value}
    (hP : ∀ xs r w', ShowsAll w w' els xs → w'.vector r = g xs → P w' (.vector r)) :
    w.Makes (do Run.vector (g (← Run.items room name 0 s))) P := by
  obtain ⟨xs, w₁, hitems, hshows, hextends⟩ := Run.items_contents h room name 0
  have hextends' := w₁.extends_addVector (g xs)
  refine ⟨.vector ⟨w₁.vectors.size⟩, _, ?_, hextends.trans hextends',
    hP xs _ _ (hshows.keeps hextends'.toKeeps) ((w₁.vector_addVector (g xs) _).trans (if_pos rfl))⟩
  rw [EStateM.run_bind, hitems]
  rfl

end

/-- A list of items in front of another list. -/
theorem ListWithTail.spine_append {items : List Value} {tail last : Value} {cells : List Cell}
    (h : w.ListWithTail items tail v) (htail : w.Spine tail cells last) :
    ∃ front, w.Spine v (front ++ cells) last ∧ front.map (·.car) = items := by
  induction items generalizing v with
  | nil =>
    obtain rfl : v = tail := h
    exact ⟨[], htail, rfl⟩
  | cons item items ih =>
    obtain ⟨r, rfl, rfl, hrest⟩ := h
    obtain ⟨front, hspine, hitems⟩ := ih hrest
    exact ⟨w.cell r :: front, .pair hspine, congrArg _ hitems⟩

/-- New pairs in front of a list give a list of all elements. -/
theorem ListOf.addList {tail : Value} (h : w.ListOf tail xs) {items : List Value}
    (htail : (w.addList items tail).2.ListOf tail xs) :
    (w.addList items tail).2.ListOf (w.addList items tail).1 (items ++ xs) := by
  obtain ⟨cells, hspine, hcells⟩ := htail
  obtain ⟨rest, hrest, hchain, -⟩ := spine_of_spineAt hspine
  obtain rfl : cells = rest := hrest
  obtain ⟨cells', hspine', hcells'⟩ := h
  obtain ⟨rest', hrest', -, hlength'⟩ := spine_of_spineAt hspine'
  obtain rfl : cells' = rest' := hrest'
  obtain ⟨front, hall, hfront⟩ :=
    (w.listWithTail_addList items tail fun _ _ _ => rfl).spine_append hchain
  refine ⟨front ++ cells, hall.spineAt ?_ [], by rw [List.map_append, hfront, hcells]⟩
  have hsame : cells.length = cells'.length := by
    simpa using congrArg List.length (hcells.trans hcells'.symm)
  have hitems : front.length = items.length := by rw [← hfront, List.length_map]
  rw [List.length_append, size_addList, hsame, hitems]
  omega

end World

/-! ## Each accessor -/

namespace Sequences

variable {w w' : World} {s : Value} {els : List Element} (room : Room)

section
variable (h : w.contents? s = some els)
include h

theorem makes_count [Host] : w.Makes (count room s) fun _ v => v = .int els.length := by
  cases s with
  | nil =>
    cases h
    exact ⟨_, w, rfl, .refl w, rfl⟩
  | cell r =>
    exact World.makes_of_items room "/count" h fun xs w' hxs =>
      congrArg (fun n : Nat => (.int n : Value)) hxs.length_eq.symm
  | vector r | tuple r | map r | str s | bytes bs =>
    cases h
    refine ⟨_, w, rfl, .refl w, ?_⟩
    simp [String.length_toList]
  | _ => cases h

/-- The elements that an index counts are the elements. -/
theorem indexedItems_contents [Host] : ∃ xs w₁, (indexedItems room s).run w = .ok xs w₁ ∧
    w.ShowsAll w₁ els xs ∧ w.Extends w₁ := by
  have hsame (xs : List Value) (hxs : indexed? w s = some xs) :
      (indexedItems room s).run w = .ok xs w := by
    rw [indexedItems, Run.run_look_bind, hxs]
    rfl
  cases s with
  | vector r | tuple r =>
    cases h
    exact ⟨_, w, hsame _ rfl, World.showsAll_values.2 rfl, .refl w⟩
  | str s =>
    cases h
    exact ⟨_, w, hsame _ rfl, World.showsAll_map _ _, .refl w⟩
  | _ => exact Run.items_contents h room "nth" 0

/-- An index in range leads to the element. -/
theorem makes_nth [Host] {i : Int} (hi : 0 ≤ i) {el : Element} (hel : els[i.toNat]? = some el) :
    w.Makes (nth room s (.int i)) fun w' v => w.Shows w' el v := by
  obtain ⟨xs, w₁, hitems, hshows, hextends⟩ := indexedItems_contents room h
  obtain ⟨x, hx, hshows⟩ := hshows.getElem? hel
  refine ⟨x, w₁, ?_, hextends, hshows⟩
  rw [nth]
  show (indexedItems room s >>= _).run w = _
  rw [EStateM.run_bind, hitems]
  dsimp only
  rw [if_neg (Int.not_lt.2 hi), hx]
  rfl

/-- An index out of range leads to an error that shows it, if it has a text. -/
theorem nth_outside [Host] {i : Int} (hi : i < 0 ∨ els.length ≤ i) : ∃ w', w.Extends w' ∧
    (nth room s (.int i)).run w = .error
      (if i.natAbs < Number.digitBound then .ofFault (.outOfRange (toString i))
        else .crash .integerTextTooLong) w' := by
  obtain ⟨xs, w₁, hitems, hshows, hextends⟩ := indexedItems_contents room h
  refine ⟨w₁, hextends, ?_⟩
  have hnone : (if i < 0 then none else xs[i.toNat]?) = none := by
    split
    · rfl
    · refine List.getElem?_eq_none ?_
      have hlength := hshows.length_eq
      omega
  rw [nth]
  show (indexedItems room s >>= _).run w = _
  rw [EStateM.run_bind, hitems]
  dsimp only
  rw [hnone]
  dsimp only
  rw [Number.intText?]
  by_cases hdigits : i.natAbs < Number.digitBound
  · rw [if_pos hdigits, if_pos hdigits]
    rfl
  · rw [if_neg hdigits, if_neg hdigits]
    rfl

theorem makes_first [Host] : w.Makes (first room s) fun w' v => w.ShowsOrNil w' els[0]? v := by
  obtain ⟨c, hcursor, hwalks, -⟩ := Cursor.walks_of_contents? h
  cases els with
  | nil =>
    refine ⟨.nil, w, ?_, .refl w, rfl⟩
    rw [first, EStateM.run_bind, Run.run_cursor hcursor]
    dsimp only
    rw [EStateM.run_bind, hwalks.next_nil (.refl w s)]
    rfl
  | cons el els =>
    obtain ⟨x, c', w₁, hnext, hshows, hextends, -⟩ := hwalks.next_cons (.refl w s) room
    refine ⟨x, w₁, ?_, hextends, hshows⟩
    rw [first, EStateM.run_bind, Run.run_cursor hcursor]
    dsimp only
    rw [EStateM.run_bind, hnext]
    rfl

theorem makes_second [Host] : w.Makes (second room s) fun w' v => w.ShowsOrNil w' els[1]? v :=
  World.makes_of_items room "second" h fun _ _ hshows => hshows.getD 1

theorem makes_last [Host] : w.Makes (last room s) fun w' v => w.ShowsOrNil w' els.getLast? v :=
  World.makes_of_items room "last" h fun _ _ hshows => hshows.getLast?

theorem makes_rest [Host] : w.Makes (rest room s) fun w' v =>
    ∃ xs, w.ShowsAll w' els.tail xs ∧ w'.ListOf v xs := by
  cases s with
  | cell r =>
    obtain ⟨xs, rfl, hlist⟩ := World.listOf_of_contents? h
    cases xs with
    | nil => cases hlist.nil_inv
    | cons x xs =>
      obtain ⟨r', hr', -, hrest⟩ := hlist.cons_inv
      cases hr'
      exact ⟨_, w, rfl, .refl w, xs, World.showsAll_values.2 rfl, hrest⟩
  | _ =>
    refine World.makes_list_of_items room "rest" h (g := List.tail) fun xs v w' hshows hlist => ?_
    refine ⟨xs.tail, ?_, hlist⟩
    cases hshows with
    | nil => exact .nil
    | cons _ hrest => exact hrest

theorem makes_toList [Host] : w.Makes (toList room s) fun w' v =>
    ∃ xs, w.ShowsAll w' els xs ∧ w'.ListOf v xs := by
  cases s with
  | nil =>
    cases h
    exact ⟨.nil, w, rfl, .refl w, [], .nil, .nil w⟩
  | cell r =>
    obtain ⟨xs, rfl, hlist⟩ := World.listOf_of_contents? h
    exact ⟨_, w, rfl, .refl w, xs, World.showsAll_values.2 rfl, hlist⟩
  | _ => exact World.makes_list_of_items room "to-list" h (g := id) fun xs v w' hshows hlist =>
      ⟨xs, hshows, hlist⟩

theorem makes_reverse [Host] : w.Makes (reverse room s) fun w' v => w'.IsReverseOf v s ∧
    ∃ xs, w.ShowsAll w' els xs ∧ w'.contents? v = some (xs.reverse.map .value) := by
  have hlist : w.Makes (do Run.list (← Run.items room "reverse" 0 s).reverse) fun w' v =>
      (∃ xs, w'.ListOf v xs) ∧
        ∃ xs, w.ShowsAll w' els xs ∧ w'.contents? v = some (xs.reverse.map .value) :=
    World.makes_list_of_items room "reverse" h fun xs v w' hshows hlist =>
      ⟨⟨_, hlist⟩, xs, hshows, hlist.contents?⟩
  cases s with
  | str t =>
    cases h
    refine ⟨_, w, rfl, .refl w, ⟨_, rfl⟩, _, World.showsAll_map _ _, ?_⟩
    simp [World.contents?]
  | vector =>
    exact World.makes_vector_of_items room "reverse" h fun xs r w' hshows hvector =>
      ⟨⟨r, rfl⟩, xs, hshows, World.contents?_vector hvector⟩
  | _ => exact hlist

end

/-- The entries of a map are made vectors, one after the other. -/
theorem run_entryVectors (entries : List (Value × Value)) (w : World) : ∃ xs w',
    (entries.mapM fun (k, x) => Run.vector [k, x]).run w = .ok xs w' ∧ w.Extends w' ∧
      List.Forall₂ w'.ShowsInVector (entries.map fun (k, x) => .entry k x) xs := by
  induction entries generalizing w with
  | nil => exact ⟨[], w, rfl, .refl w, .nil⟩
  | cons e entries ih =>
    obtain ⟨k, x⟩ := e
    have hextends := w.extends_addVector [k, x]
    obtain ⟨xs, w', hrun, hextends', hshows⟩ := ih (w.addVector [k, x]).2
    have hsize : w.vectors.size < (w.addVector [k, x]).2.vectors.size := by
      rw [World.addVector, Array.size_push]
      exact Nat.lt_succ_self _
    refine ⟨.vector ⟨w.vectors.size⟩ :: xs, w', ?_, hextends.trans hextends',
      .cons ⟨_, rfl, ?_, ?_⟩ hshows⟩
    · rw [List.mapM_cons, EStateM.run_bind]
      show (_ >>= _ : Run _).run (w.addVector [k, x]).2 = _
      rw [EStateM.run_bind, hrun]
      rfl
    · exact Nat.lt_of_lt_of_le hsize hextends'.toKeeps.vectors
    · rw [hextends'.toKeeps.vector ⟨w.vectors.size⟩ hsize, World.vector_addVector, if_pos rfl]

theorem makes_toVector [Host] (h : w.contents? s = some els) : w.Makes (toVector room s) fun w' v =>
    (∃ r, v = .vector r) ∧
      ∃ xs, List.Forall₂ w'.ShowsInVector els xs ∧ w'.contents? v = some (xs.map .value) := by
  cases s with
  | map r =>
    cases h
    obtain ⟨xs, w₁, hrun, hextends, hshows⟩ := run_entryVectors (w.entries r) w
    have hextends' := w₁.extends_addVector xs
    refine ⟨.vector ⟨w₁.vectors.size⟩, _, ?_, hextends.trans hextends', ⟨_, rfl⟩, xs,
      hshows.imp fun _ _ hx => hx.keeps hextends'.toKeeps,
      World.contents?_vector ((w₁.vector_addVector xs _).trans (if_pos rfl))⟩
    show (Run.look (·.entries r) >>= _ : Run _).run w = _
    rw [Run.run_look_bind, EStateM.run_bind, hrun]
    rfl
  | _ =>
    refine World.makes_vector_of_items room "to-vector" h (g := id) fun xs r w' hshows hvector => ?_
    obtain ⟨vs, rfl⟩ := World.values_of_contents? h nofun
    obtain rfl : xs = vs := World.showsAll_values.1 hshows
    exact ⟨⟨r, rfl⟩, xs, List.forall₂_map_left_iff.2 (List.forall₂_same.2 fun _ _ => rfl),
      World.contents?_vector hvector⟩

/-- The last argument of `append`: a list as it is, everything else as a new list. -/
def appendTail [Host] (room : Room) (index : Nat) (s : Value) : Run Value :=
  match s with
  | .nil => pure s
  | .cell _ => pure s
  | _ => do Run.list (← Run.items room "append" index s)

theorem append_concat [Host] (ss : List Value) (s : Value) : append room (ss ++ [s]) =
    appendTail room ss.length s >>= fun tail => columns room "append" 0 ss >>= fun items =>
      Run.listWithTail items.flatten tail := by
  rw [append, List.getLast?_concat, List.dropLast_concat, List.length_append, List.length_singleton,
    Nat.add_sub_cancel]
  cases s with
  | nil | cell => rfl
  | _ => exact (bind_assoc ..).symm

theorem run_appendTail [Host] (index : Nat) (hw : w.Sound) (hs : w.InRange s)
    (h : w.contents? s = some els) :
    ∃ tail xs w₁, (appendTail room index s).run w = .ok tail w₁ ∧ w.Extends w₁ ∧
      w.ShowsAll w₁ els xs ∧ ∀ w₂, w₁.Keeps w₂ → w₂.ListOf tail xs := by
  cases s with
  | nil =>
    cases h
    exact ⟨.nil, [], w, rfl, .refl w, .nil, fun w₂ _ => .nil w₂⟩
  | cell r =>
    obtain ⟨xs, rfl, hlist⟩ := World.listOf_of_contents? h
    exact ⟨_, xs, w, rfl, .refl w, World.showsAll_values.2 rfl, fun w₂ hk => hlist.keeps hw hs hk⟩
  | _ =>
    obtain ⟨xs, w₁, hitems, hshows, hextends⟩ := Run.items_contents h room "append" index
    have hextends' := w₁.extends_addList xs .nil
    refine ⟨(w₁.addList xs .nil).1, xs, (w₁.addList xs .nil).2, ?_, hextends.trans hextends',
      hshows.keeps hextends'.toKeeps, fun w₂ hk => ?_⟩
    · rw [appendTail, EStateM.run_bind, hitems]
      · rfl
      all_goals nofun
    · exact ((World.newList_addList w₁ xs (Nat.le_refl _) fun _ _ _ => rfl).keeps hk).1

theorem forall₂_concat_inv {α β : Type} {R : α → β → Prop} {as : List α} {a : α} {bs : List β}
    (h : List.Forall₂ R (as ++ [a]) bs) : ∃ bs' b, bs = bs' ++ [b] ∧
    List.Forall₂ R as bs' ∧ R a b := by
  have hfront := List.forall₂_take_append _ _ _ h.flip
  have hlast := List.forall₂_drop_append _ _ _ h.flip
  obtain ⟨b, rest, hb, hrest, hdrop⟩ := List.forall₂_cons_right_iff.1 hlast
  cases hrest
  refine ⟨bs.take as.length, b, ?_, hfront.flip, hb⟩
  rw [← hdrop, List.take_append_drop]

/-- All elements, one sequence after the other. -/
theorem makes_append [Host] {ss : List Value} {elss : List (List Element)} (hw : w.Sound)
    (hss : ∀ s ∈ ss, w.InRange s)
    (h : List.Forall₂ (fun s els => w.contents? s = some els) ss elss) :
    w.Makes (append room ss) fun w' v =>
      ∃ xss, List.Forall₂ (w.ShowsAll w') elss xss ∧ w'.ListOf v xss.flatten := by
  rcases List.eq_nil_or_concat ss with rfl | ⟨ss, s, rfl⟩
  · cases h
    exact ⟨.nil, w, rfl, .refl w, [], .nil, .nil w⟩
  rw [List.concat_eq_append] at hss h ⊢
  obtain ⟨elss, els, rfl, hfront, hlast⟩ := forall₂_concat_inv h
  rw [List.forall_mem_append] at hss
  obtain ⟨tail, xs, w₁, htail, hextends, hshows, hlist⟩ :=
    run_appendTail room ss.length hw (hss.2 s (List.mem_singleton_self s)) hlast
  obtain ⟨xss, w₂, hcolumns, hall, hextends'⟩ :=
    columns_contents hw hss.1 hfront room "append" 0 hextends
  have hextends'' := w₂.extends_addList xss.flatten tail
  refine ⟨(w₂.addList xss.flatten tail).1, (w₂.addList xss.flatten tail).2, ?_,
    (hextends.trans hextends').trans hextends'', xss ++ [xs], ?_, ?_⟩
  · rw [append_concat, EStateM.run_bind, htail]
    dsimp only
    rw [EStateM.run_bind, hcolumns]
    rfl
  · refine List.rel_append ?_ (.cons ?_ .nil)
    · exact hall.imp fun _ _ hx => hx.keeps hextends''.toKeeps
    · exact hshows.keeps (hextends'.toKeeps.trans hextends''.toKeeps)
  · rw [List.flatten_append, List.flatten_singleton]
    exact (hlist w₂ hextends'.toKeeps).addList
      (hlist _ (hextends'.toKeeps.trans hextends''.toKeeps))

/-! ## What is no sequence -/

/-- The run stops with a type error, and nothing has happened but that objects have been made. -/
def Refused {α : Type} (w : World) (x : Run α) : Prop :=
  ∃ f w', x.run w = .error (.ofFault (.type f)) w' ∧ w.Extends w'

section
variable {α β : Type} {x : Run α}

theorem Refused.bind (h : Refused w x) (f : α → Run β) : Refused w (x >>= f) := by
  obtain ⟨t, w', hrun, hextends⟩ := h
  refine ⟨t, w', ?_, hextends⟩
  rw [EStateM.run_bind, hrun]

theorem refused_after {a : α} {w₁ : World} {f : α → Run β} (hx : x.run w = .ok a w₁)
    (hextends : w.Extends w₁) (h : Refused w₁ (f a)) : Refused w (x >>= f) := by
  obtain ⟨t, w', hrun, hextends'⟩ := h
  refine ⟨t, w', ?_, hextends.trans hextends'⟩
  rw [EStateM.run_bind, hx]
  exact hrun

end

/-- What is no sequence does not become one. -/
theorem cursor?_eq_none (h : w.cursor? s = none) (hw : w.Extends w') : w'.cursor? s = none := by
  cases s with
  | object r =>
    have hobject : w'.object r = w.object r := by rw [World.object, World.object, hw.objects_eq]
    rw [World.cursor?, hobject]
    exact h
  | _ => first | rfl | cases h

theorem refused_cursor (h : w.cursor? s = none) (name : String) (index : Nat) :
    Refused w (Run.cursor name index s) := by
  refine ⟨.argument name index "a sequence" (w.typeName s), w, ?_, .refl w⟩
  rw [Run.cursor, Run.run_look_bind, h]
  rfl

theorem refused_items [Host] (h : w.cursor? s = none) (name : String) (index : Nat) :
    Refused w (Run.items room name index s) := by
  unfold Run.items
  cases s with
  | cell => cases h
  | _ => exact (refused_cursor h name index).bind _

/-- What is no sequence is counted only if it is an object of the host that has a size, and then its
size is the count. -/
theorem count_of_noSequence [Host] (h : w.cursor? s = none) :
    (w.isSized s = false → Refused w (count room s)) ∧
    (w.isSized s = true → ∃ r, s = .object r ∧
      (count room s).run w = (do return .int (← Host.sizeOf room r) : Run Value).run w) := by
  cases s with
  | nil | cell | vector | tuple | str | bytes | map | generator => cases h
  | object r =>
    have hrun : (count room (.object r)).run w =
        (if w.isSized (.object r) then do return .int (← Run.size room (.object r))
          else do return .int (← Run.items room "/count" 0 (.object r)).length :
            Run Value).run w := rfl
    rw [Refused, hrun]
    refine ⟨fun hsized => ?_, fun hsized => ⟨r, rfl, ?_⟩⟩
    · rw [hsized, if_neg Bool.false_ne_true]
      exact (refused_items room h "/count" 0).bind _
    · rw [hsized, if_pos rfl, Run.size, bind_assoc, Run.run_look_bind,
        if_pos (show (w.object r).kind.sized = true from hsized)]
  | _ =>
    exact ⟨fun _ => (refused_items room h "/count" 0).bind fun items =>
      pure (.int items.length), nofun⟩

/-- Everything that is no sequence is refused by all accessors of the elements of one. -/
theorem refused_accessors [Host] (h : w.cursor? s = none) :
    (∀ i : Int, Refused w (nth room s (.int i))) ∧ Refused w (first room s) ∧
    Refused w (second room s) ∧
    Refused w (last room s) ∧ Refused w (rest room s) ∧ Refused w (toList room s) ∧
    Refused w (reverse room s) ∧ Refused w (toVector room s) := by
  have hitems {β : Type} (name : String) (f : List Value → Run β) :
      Refused w (Run.items room name 0 s >>= f) := (refused_items room h name 0).bind f
  cases s with
  | nil | cell | vector | tuple | str | bytes | map | generator => cases h
  | _ =>
    refine ⟨fun i => ?_, (refused_cursor h _ _).bind _, hitems _ _, hitems _ _,
      hitems _ _, hitems _ _,
      hitems _ _, hitems _ _⟩
    exact refused_after (x := Argument.integer "nth" 1 (.int i)) rfl (.refl w)
      (refused_items room h _ _ |>.bind _)

/-- One argument that is no sequence is enough. -/
theorem refused_columns [Host] {ss : List Value} (hw : w.Sound) (hss : ∀ s ∈ ss, w.InRange s)
    (h : ∀ s ∈ ss, (w.contents? s).isSome ∨ w.cursor? s = none) (hs : ∃ s ∈ ss, w.cursor? s = none)
    (name : String) (index : Nat) {w₁ : World} (hw₁ : w.Extends w₁) :
    Refused w₁ (columns room name index ss) := by
  induction ss generalizing index w₁ with
  | nil => obtain ⟨s, hmem, -⟩ := hs; cases hmem
  | cons s ss ih =>
    obtain ⟨hhead, hrest⟩ := List.forall_mem_cons.1 h
    obtain ⟨hrange, hranges⟩ := List.forall_mem_cons.1 hss
    by_cases hnone : w.cursor? s = none
    · exact (refused_items room (cursor?_eq_none hnone hw₁) name index).bind _
    · obtain ⟨els, hels⟩ := Option.isSome_iff_exists.1 (hhead.resolve_right hnone)
      obtain ⟨xs, w₂, hitems, -, hextends⟩ :=
        Run.items_contents (World.contents?_extends hels hw hrange hw₁) room name index
      refine refused_after hitems hextends
        (Refused.bind (ih hranges hrest ?_ _ (hw₁.trans hextends)) _)
      obtain ⟨s', hmem, hs'⟩ := hs
      rcases List.mem_cons.1 hmem with rfl | hmem
      · exact absurd hs' hnone
      · exact ⟨s', hmem, hs'⟩

theorem refused_append [Host] {ss : List Value} (hw : w.Sound) (hss : ∀ s ∈ ss, w.InRange s)
    (h : ∀ s ∈ ss, (w.contents? s).isSome ∨ w.cursor? s = none)
    (hs : ∃ s ∈ ss, w.cursor? s = none) :
    Refused w (append room ss) := by
  rcases List.eq_nil_or_concat ss with rfl | ⟨ss, s, rfl⟩
  · obtain ⟨s, hmem, -⟩ := hs
    cases hmem
  rw [List.concat_eq_append] at hss h hs ⊢
  rw [append_concat]
  rw [List.forall_mem_append] at hss h
  by_cases hnone : w.cursor? s = none
  · refine Refused.bind ?_ _
    unfold appendTail
    cases s with
    | nil | cell => cases hnone
    | _ => exact (refused_items room hnone _ _).bind _
  · obtain ⟨els, hels⟩ :=
      Option.isSome_iff_exists.1 ((h.2 s (List.mem_singleton_self s)).resolve_right hnone)
    obtain ⟨tail, xs, w₁, htail, hextends, -⟩ :=
      run_appendTail room ss.length hw (hss.2 s (List.mem_singleton_self s)) hels
    refine refused_after htail hextends
      (Refused.bind (refused_columns room hw hss.1 h.1 ?_ _ _ hextends) _)
    obtain ⟨s', hmem, hs'⟩ := hs
    rcases List.mem_append.1 hmem with hmem | hmem
    · exact ⟨s', hmem, hs'⟩
    · cases List.mem_singleton.1 hmem
      exact absurd hs' hnone

/-! ## Agreement -/

/-- A loop over the sequence `s` and all accessors of it see the elements `els`. -/
structure Agree [Host] (room : Room) (call : Caller) (w : World) (s : Value)
    (els : List Element) : Prop where
  /-- `doseq` has a turn for each element, unless the body stops it or changes `s`. -/
  doseq (e : Evaluator) (fuel : Nat) (site : Site) (name : Symbol) (specForm source : Value)
    (body : List Value) (w₀ : World) : w₀.ListOf specForm [.sym name, source] →
    (e.value site source).run w₀ = .ok s w → els.length < fuel →
    ∃ r, e.Turns site name body w s w els r ∧
      (SpecialForm.loop e fuel site "doseq" "seq" false (specForm :: body)).run w₀ = match r with
        | .ok _ w' => .ok .nil w'
        | .error st w' => .error st w'
  count : w.Makes (Builtin.run room call .count [s]) fun _ v => v = .int els.length
  nth (i : Int) (el : Element) : 0 ≤ i → els[i.toNat]? = some el →
    w.Makes (Builtin.run room call .nth [s, .int i]) fun w' v => w.Shows w' el v
  /-- An index that has too many digits for a text is no error of the program. -/
  nthOutside (i : Int) : i < 0 ∨ els.length ≤ i → ∃ w', w.Extends w' ∧
    (Builtin.run room call .nth [s, .int i]).run w = .error
      (if i.natAbs < Number.digitBound then .ofFault (.outOfRange (toString i))
        else .crash .integerTextTooLong) w'
  first : w.Makes (Builtin.run room call .first [s]) fun w' v => w.ShowsOrNil w' els[0]? v
  second : w.Makes (Builtin.run room call .second [s]) fun w' v => w.ShowsOrNil w' els[1]? v
  last : w.Makes (Builtin.run room call .last [s]) fun w' v => w.ShowsOrNil w' els.getLast? v
  rest : w.Makes (Builtin.run room call .rest [s]) fun w' v =>
    ∃ xs, w.ShowsAll w' els.tail xs ∧ w'.ListOf v xs
  toList : w.Makes (Builtin.run room call .toList [s]) fun w' v =>
    ∃ xs, w.ShowsAll w' els xs ∧ w'.ListOf v xs
  reverse : w.Makes (Builtin.run room call .reverse [s]) fun w' v => w'.IsReverseOf v s ∧
    ∃ xs, w.ShowsAll w' els xs ∧ w'.contents? v = some (xs.reverse.map .value)
  toVector : w.Makes (Builtin.run room call .toVector [s]) fun w' v => (∃ r, v = .vector r) ∧
    ∃ xs, List.Forall₂ w'.ShowsInVector els xs ∧ w'.contents? v = some (xs.map .value)

/-- A loop over `s` and all accessors of it stop with a type error; only an object of the host that
has a size is counted all the same. -/
structure Refuse [Host] (room : Room) (call : Caller) (w : World) (s : Value) : Prop where
  doseq (e : Evaluator) (fuel : Nat) (site : Site) (name : Symbol) (specForm source : Value)
    (body : List Value) (w₀ : World) : w₀.ListOf specForm [.sym name, source] →
    (e.value site source).run w₀ = .ok s w →
    ∃ f, (SpecialForm.loop e fuel site "doseq" "seq" false (specForm :: body)).run w₀ =
      .error (.ofFault (.type f)) w
  nth (i : Int) : Refused w (Builtin.run room call .nth [s, .int i])
  unary (b : Builtin) :
    b ∈ [.first, .second, .last, .rest, .toList, .reverse, .toVector] →
    Refused w (Builtin.run room call b [s])
  count : w.isSized s = false → Refused w (Builtin.run room call .count [s])
  /-- The size is what the host says. -/
  countSized : w.isSized s = true → ∃ r, s = .object r ∧
    (Builtin.run room call .count [s]).run w =
      (do return .int (← Host.sizeOf room r) : Run Value).run w

/-- Loops and accessors see the same elements. For every sequence in every world in which everything
that is referred to exists: the elements that `doseq` binds are those that are counted, found at
their indices and at both ends, listed, reversed and put into a vector, and `append` lists those of
all its arguments. An index out of range is an error, but one whose text would have too many digits
is a failure of the host. What is no sequence of any kind is refused by all of them, except that an
object of the host is counted if it has a size. -/
theorem accessors_agree [Host] {w : World} (hw : w.Sound) (room : Room) (call : Caller) :
    (∀ s els, w.contents? s = some els → Agree room call w s els) ∧
    (∀ ss elss, (∀ s ∈ ss, w.InRange s) →
      List.Forall₂ (fun s els => w.contents? s = some els) ss elss →
      w.Makes (Builtin.run room call .append ss) fun w' v =>
        ∃ xss, List.Forall₂ (w.ShowsAll w') elss xss ∧ w'.ListOf v xss.flatten) ∧
    (∀ s, w.cursor? s = none → Refuse room call w s) ∧
    ∀ ss, (∀ s ∈ ss, w.InRange s) → (∀ s ∈ ss, (w.contents? s).isSome ∨ w.cursor? s = none) →
      (∃ s ∈ ss, w.cursor? s = none) → Refused w (Builtin.run room call .append ss) := by
  refine ⟨fun s els h => ?_, fun ss elss hss h => makes_append room hw hss h, fun s h => ?_,
    fun ss hss h hs => refused_append room hw hss h hs⟩
  · exact
      { doseq := fun e fuel site name specForm source body w₀ hspec hsource hfuel =>
          SpecialForm.doseq_turns e site body hspec hsource h hfuel
        count := makes_count room h
        nth := fun i el hi hel => makes_nth room h hi hel
        nthOutside := fun i hi => nth_outside room h hi
        first := makes_first room h
        second := makes_second room h
        last := makes_last room h
        rest := makes_rest room h
        toList := makes_toList room h
        reverse := makes_reverse room h
        toVector := makes_toVector room h }
  · obtain ⟨hnth, hfirst, hsecond, hlast, hrest, htoList, hreverse, htoVector⟩ :=
      refused_accessors room h
    obtain ⟨hcount, hsized⟩ := count_of_noSequence room h
    refine ⟨fun e fuel site name specForm source body w₀ hspec hsource =>
      SpecialForm.doseq_refused e site body hspec hsource h, hnth, fun b hb => ?_, hcount, hsized⟩
    simp only [List.mem_cons, List.not_mem_nil, or_false] at hb
    rcases hb with rfl | rfl | rfl | rfl | rfl | rfl | rfl
    · exact hfirst
    · exact hsecond
    · exact hlast
    · exact hrest
    · exact htoList
    · exact hreverse
    · exact htoVector

/-- The map `{a 1 b 2}`. -/
def twoEntries : World :=
  { World.empty with maps := #[[(.sym ⟨"a"⟩, .int 1), (.sym ⟨"b"⟩, .int 2)]] }

theorem twoEntries_sound : twoEntries.Sound := by decide

open scoped SampleHost in
/-- The element at 1 is the list `(b 2)`; there is none at -1 and none at 10 to the 4300th. -/
theorem accessors_agree_twoEntries : twoEntries.Sound ∧
    twoEntries.contents? (.map (.own 0)) =
      some [.entry (.sym ⟨"a"⟩) (.int 1), .entry (.sym ⟨"b"⟩) (.int 2)] ∧
    (∃ v w', (nth .unbounded (.map (.own 0)) (.int 1)).run twoEntries = .ok v w' ∧
      w'.ListOf v [.sym ⟨"b"⟩, .int 2]) ∧
    (∃ w', (nth .unbounded (.map (.own 0)) (.int (-1))).run twoEntries =
      .error (.ofFault (.outOfRange "-1")) w') ∧
    ∃ w', (nth .unbounded (.map (.own 0)) (.int Number.digitBound)).run twoEntries =
      .error (.crash .integerTextTooLong) w' := by
  have hcontents : twoEntries.contents? (.map (.own 0)) =
      some [.entry (.sym ⟨"a"⟩) (.int 1), .entry (.sym ⟨"b"⟩) (.int 2)] := rfl
  have hagree := (accessors_agree twoEntries_sound .unbounded fun _ _ => pure .nil).1 _ _ hcontents
  have hbound : 2 < Number.digitBound := by
    have hpow (n : Nat) : n < Nat.pow 10 n := Nat.lt_pow_self (by decide)
    have hdigits : 2 < Number.maxDigits := by decide
    unfold Number.digitBound
    exact Nat.lt_trans hdigits (hpow Number.maxDigits)
  refine ⟨twoEntries_sound, hcontents, ?_, ?_, ?_⟩
  · obtain ⟨v, w', hrun, -, hlist⟩ := hagree.nth 1 _ Int.one_nonneg rfl
    exact ⟨v, w', hrun, hlist.1⟩
  · obtain ⟨w', -, hrun⟩ := hagree.nthOutside (-1) (.inl (by decide))
    have hone : (-1 : Int).natAbs < Number.digitBound := Nat.lt_of_succ_lt hbound
    rw [if_pos hone] at hrun
    exact ⟨w', hrun⟩
  · obtain ⟨w', -, hrun⟩ :=
      hagree.nthOutside Number.digitBound (.inr (Int.ofNat_le.2 (Nat.le_of_lt hbound)))
    rw [Int.natAbs_natCast, if_neg (Nat.lt_irrefl _)] at hrun
    exact ⟨w', hrun⟩

end Sequences

end TemplateLisp
