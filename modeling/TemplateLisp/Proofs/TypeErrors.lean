import TemplateLisp.Host.Sample
import TemplateLisp.Proofs.Blame

/-!
# Type errors of built-in functions

Every built-in function names itself in its type errors, and one of its arguments, with two
exceptions that `Builtin.type_errors` states. A list that is walked through element by element and
turns out to end in something else than `nil` is refused with an error that names nothing, while
functions that take all elements first look at the end of the list. And `get` looks an association
list up the way `assoc` does, so it blames the argument behind the one that the list was passed as.
What the host raises on a walk through an object of its own is passed on as it is.
-/

namespace TemplateLisp

namespace Run.Blames

section
variable {P : World → TypeFault → Prop} {α : Type} {w : World}

/-! ## Numbers and comparison -/

theorem settle (r : Except NumberFault Number) : Blames P w (Arithmetic.settle r) := by
  cases r with
  | ok n => exact number n
  | error f => exact crash _

theorem fold {name : String} (op : Number → Number → Except NumberFault Number) {i : Nat}
    (acc : Number) {vs : List Value} (h : ∀ j, i ≤ j → j < i + vs.length → Allows P name j) :
    Blames P w (Arithmetic.fold name op i acc vs) := by
  induction vs generalizing i acc w with
  | nil => exact pure _
  | cons v vs ih =>
    simp only [List.length_cons] at h
    have hhere : Allows P name i := h i (Nat.le_refl _) (by omega)
    refine seq (numberArgument hhere v) fun x w => ?_
    split
    · exact ih _ fun j hle hlt => h j (by omega) (by omega)
    · exact seq (look _) fun _ _ => wrongArgument hhere _ _
    · exact fail nofun
    · exact crash _

theorem sum {args : List Value} (h : ∀ j, j < args.length → Allows P "+" j) :
    Blames P w (Arithmetic.sum args) := by
  unfold Arithmetic.sum
  split
  · exact pure _
  · exact seq (numberArgument (h 0 (by simp)) _) fun _ _ => pure _
  · refine seq (numberArgument (h 0 (by simp)) _) fun _ _ =>
      seq (fold _ _ fun j hle hlt => ?_) fun _ _ =>
      number _
    exact h j (by simp only [List.length_cons]; omega)

theorem difference {v : Value} {vs : List Value} (h : ∀ j, j < (v :: vs).length → Allows P "-" j) :
    Blames P w (Arithmetic.difference v vs) := by
  refine seq (numberArgument (h 0 (by simp)) v) fun _ _ => ite (settle _) ?_
  refine seq (fold _ _ fun j hle hlt => ?_) fun _ _ => number _
  exact h j (by simp only [List.length_cons]; omega)

theorem quotient {v : Value} {vs : List Value} (h : ∀ j, j < (v :: vs).length → Allows P "/" j) :
    Blames P w (Arithmetic.quotient v vs) := by
  refine seq (numberArgument (h 0 (by simp)) v) fun _ _ => ite ?_ ?_
  · split
    · exact fail nofun
    · exact settle _
  · refine seq (fold _ _ fun j hle hlt => ?_) fun _ _ => number _
    exact h j (by simp only [List.length_cons]; omega)

theorem remainder (h₀ : Allows P "mod" 0) (h₁ : Allows P "mod" 1) (u v : Value) :
    Blames P w (Arithmetic.remainder u v) := by
  refine seq (numberArgument h₀ u) fun _ _ => seq (numberArgument h₁ v) fun _ _ => ?_
  split
  · exact fail nofun
  · exact seq (look _) fun _ _ => seq (look _) fun _ _ => crash _
  · exact settle _

theorem isMultipleOfTwo {name : String} (h : Allows P name 0) (v : Value) :
    Blames P w (Arithmetic.isMultipleOfTwo name v) := by
  refine seq (numberArgument h v) fun _ _ => ?_
  split
  · exact pure _
  · exact crash _

theorem allEqual (room : Room) (first : Value) (vs : List Value) :
    Blames P w (Comparison.allEqual room first vs) := by
  induction vs generalizing w with
  | nil => exact pure _
  | cons v vs ih =>
    exact seq (lookOrStop fun w => .equal w room first v) fun _ _ => ite ih (pure _)

theorem checkComparable {name : String} {i : Nat} {vs : List Value}
    (h : ∀ j, i ≤ j → j < i + vs.length → Allows P name j) :
    Blames P w (Comparison.checkComparable name i vs) := by
  induction vs generalizing i with
  | nil => exact pure _
  | cons v vs ih =>
    simp only [List.length_cons] at h
    have hrest := ih (i := i + 1) fun j hle hlt => h j (by omega) (by omega)
    cases v with
    | num n => exact hrest
    | str s => exact hrest
    | _ => exact wrongArgument (h i (Nat.le_refl _) (by omega)) _ _

theorem inOrder (o : Comparison.Order) {i : Nat} (u : Value) {vs : List Value}
    (h : ∀ j, i ≤ j → j < i + vs.length → Allows P o.name j) :
    Blames P w (Comparison.inOrder o i u vs) := by
  induction vs generalizing i u w with
  | nil => exact pure _
  | cons v vs ih =>
    simp only [List.length_cons] at h
    have hrest : ∀ (holds : Bool) w, Blames P w
        (if holds = true then Comparison.inOrder o (i + 1) v vs else Pure.pure false) :=
      fun _ _ => ite (ih v fun j hle hlt => h j (by omega) (by omega)) (pure _)
    unfold Comparison.inOrder
    dsimp only
    split
    · split
      · exact seq (pure _) hrest
      · exact seq (crash _) hrest
    · exact seq (pure _) hrest
    · exact seq (look _) fun _ _ => seq (wrongArgument (h i (Nat.le_refl _) (by omega)) _ _) hrest

theorem ordered {o : Comparison.Order} {v : Value} {vs : List Value}
    (h : ∀ j, j < (v :: vs).length → Allows P o.name j) :
    Blames P w (Comparison.ordered o v vs) := by
  refine seq (checkComparable fun j _ hlt => h j (by omega)) fun _ _ =>
    seq (inOrder o v fun j hle hlt => ?_) fun _ _ => pure _
  exact h j (by simp only [List.length_cons]; omega)

/-! ## Maps and pairs -/

/-- An entry that is no list is blamed on the argument with index one, whoever looks. -/
theorem findEntryAt [Host] {name : String} (h : Allows P name 1) (room : Room) (key : Value)
    (fuel index : Nat) {c : Cursor} (hc : c.Allowed P w) :
    Blames P w (Maps.findEntryAt room name key fuel index c) := by
  induction fuel generalizing index c w with
  | zero => exact throw nofun
  | succ n ih =>
    refine bind (next hc room) fun next w' hnext => ?_
    split
    · exact pure _
    · exact ih _ (allowed_next hc hnext)
    · refine bind (lookOrStop fun w => .keysMatch w room key _) fun found w'' hfound =>
        ite (pure _) ?_
      have hallowed := allowed_next hc hnext
      rw [Run.run_lookOrStop] at hfound
      split at hfound
      · cases hfound
        exact ih _ hallowed
      · cases hfound
    · exact wrongArgument h _ _

theorem findEntry [Host] {name : String} (h : Allows P name 1) {alist : Value}
    (hdotted : AllowsDotted P alist) (room : Room) (key : Value) :
    Blames P w (Maps.findEntry room name key alist) := by
  cases alist with
  | nil => exact pure _
  | cell r =>
    refine bind (look _) fun fuel w' hlook => ?_
    cases hlook
    exact findEntryAt h room key _ 0 fun cells last text => hdotted w r cells last text rfl
  | _ => exact wrongArgument h _ _

theorem entryValue (r : CellRef) : Blames P w (Maps.entryValue r) := by
  refine seq (look _) fun cdr w => ?_
  cases cdr with
  | cell s => exact look _
  | _ => exact pure _

theorem assoc [Host] (h : Allows P "assoc" 1) {alist : Value}
    (hdotted : AllowsDotted P alist) (room : Room) (key : Value) :
    Blames P w (Maps.assoc room key alist) := by
  refine seq (findEntry h hdotted room key) fun found w => ?_
  cases found <;> exact pure _

theorem checkKey {name : String} {i : Nat} (h : Allows P name i) (key : Value) :
    Blames P w (Maps.checkKey name i key) :=
  seq (look _) fun _ _ => ite (pure _) (wrongArgument h _ _)

theorem valueAt? (room : Room) (r : MapRef) (key : Value) : Blames P w (Maps.valueAt? room r key) :=
  lookOrStop fun w => .lookUp? w room _ key

theorem assocValue [Host] {key v : Value} (hkey : (∃ r, v = .map r) → Allows P "assoc-value" 0)
    (h : Allows P "assoc-value" 1) (hdotted : AllowsDotted P v) (room : Room) :
    Blames P w (Maps.assocValue room key v) := by
  unfold Maps.assocValue
  split
  · exact seq (checkKey (hkey ⟨_, rfl⟩) key) fun _ _ => seq (valueAt? room _ key) fun _ _ => pure _
  · refine seq (findEntry h hdotted room key) fun found w => ?_
    cases found with
    | some r => exact entryValue r
    | none => exact pure _

theorem get [Host] {v key : Value} (hmap : (∀ r, v ≠ .cell r) → Allows P "get" 0)
    (h : Allows P "get" 1) (hdotted : AllowsDotted P v) (room : Room) (default? : Option Value) :
    Blames P w (Maps.get room v key default?) := by
  unfold Maps.get
  dsimp only
  split
  · exact pure _
  · exact seq (checkKey h key) fun _ _ => seq (valueAt? room _ key) fun _ _ => pure _
  · refine seq (findEntry h hdotted room key) fun found w => ?_
    cases found with
    | some r => exact entryValue r
    | none => exact pure _
  · rename_i hcell
    exact wrongArgument (hmap hcell) _ _

theorem set (h₀ : Allows P "map-set!" 0) (h₁ : Allows P "map-set!" 1) (room : Room)
    (v key value : Value) : Blames P w (Maps.set room v key value) := by
  cases v with
  | map r =>
    exact seq (checkKey h₁ key) fun _ _ =>
      seq (lookOrStop fun w => .matchingKey? w room key _) fun _ _ =>
      seq (modify _) fun _ _ => pure _
  | _ => exact wrongArgument h₀ _ _

theorem pairItems {i : Nat} (h : Allows P "new-map" i) {v : Value} (hdotted : AllowsDotted P v)
    (room : Room) : Blames P w (Maps.pairItems room i v) := by
  unfold Maps.pairItems
  dsimp only
  split
  all_goals
    refine seq ?_ fun items w => ?_
    rotate_left
    · split
      · exact pure _
      · exact wrongArgument h _ _
  · exact properItems hdotted room
  · exact look _
  · exact look _
  · exact pure _

theorem collect {i : Nat} (entries : List (Value × Value)) {vs : List Value}
    (h : ∀ j, i ≤ j → j < i + vs.length → Allows P "new-map" j)
    (hdotted : ∀ v ∈ vs, AllowsDotted P v) (room : Room) :
    Blames P w (Maps.collect room i entries vs) := by
  induction vs generalizing i entries w with
  | nil => exact pure _
  | cons v vs ih =>
    simp only [List.length_cons] at h
    have hhere : Allows P "new-map" i := h i (Nat.le_refl _) (by omega)
    refine seq (pairItems hhere (hdotted v List.mem_cons_self) room) fun p w =>
      seq (checkKey hhere p.1) fun _ w => seq (look _) fun _ w => ?_
    exact ih _ (fun j hle hlt => h j (by omega) (by omega))
      fun u hu => hdotted u (List.mem_cons_of_mem _ hu)

theorem entriesOf {name : String} (h : Allows P name 0) (v : Value) :
    Blames P w (Maps.entriesOf name v) := by
  cases v with
  | map r => exact look _
  | _ => exact wrongArgument h _ _

theorem entries (h : Allows P "entries" 0) (v : Value) : Blames P w (Maps.entries v) :=
  seq (entriesOf h v) fun es _ => seq (mapM (fun _ _ => list _) es) fun _ _ => list _

theorem car (h : Allows P "car" 0) (v : Value) : Blames P w (Pair.first v) := by
  cases v with
  | nil => exact pure _
  | cell r => exact look _
  | _ => exact wrongArgument h _ _

theorem cdr (h : Allows P "cdr" 0) (v : Value) : Blames P w (Pair.second v) := by
  cases v with
  | nil => exact pure _
  | cell r => exact look _
  | _ => exact wrongArgument h _ _

theorem setFirst (h : Allows P "set-car!" 0) (u v : Value) : Blames P w (Pair.setFirst u v) := by
  cases u with
  | cell r => exact seq (modify _) fun _ _ => pure _
  | _ => exact wrongArgument h _ _

theorem setSecond (h : Allows P "set-cdr!" 0) (u v : Value) : Blames P w (Pair.setSecond u v) := by
  cases u with
  | cell r => exact seq (modify _) fun _ _ => pure _
  | _ => exact wrongArgument h _ _

theorem ofKeyword {s : Symbol} (h : Allows P s.name 0) (args : List Value) :
    Blames P w (Maps.ofKeyword s args) := by
  unfold Maps.ofKeyword
  split
  rotate_right
  · exact fail nofun
  -- With one argument and with two the map is looked up in the same way.
  all_goals
    dsimp only
    split
    · exact pure _
    · exact seq (look _) fun _ _ => pure _
    · exact wrongArgument h _ _

/-! ## Sequences and texts -/

theorem columns [Host] {name : String} {i : Nat} {vs : List Value}
    (h : ∀ j, i ≤ j → j < i + vs.length → Allows P name j) (hraised : ∀ v ∈ vs, AllowsRaised P v)
    (room : Room) : Blames P w (Sequences.columns room name i vs) := by
  induction vs generalizing i w with
  | nil => exact pure _
  | cons v vs ih =>
    simp only [List.length_cons] at h
    obtain ⟨hv, hvs⟩ := List.forall_mem_cons.1 hraised
    exact seq (items (h i (Nat.le_refl _) (by omega)) room hv) fun _ _ =>
      seq (ih (fun j hle hlt => h j (by omega) (by omega)) hvs) fun _ _ => pure _

theorem lessThan (h : ∀ w left right, P w (.incomparable left right)) (u v : Value) :
    Blames P w (Sequences.lessThan u v) := by
  unfold Sequences.lessThan
  split
  · split
    · exact pure _
    · exact crash _
  · exact pure _
  · intro t pos w' herror
    cases herror
    exact h _ _ _

theorem outOfRange (index : String) :
    Blames P w (Run.fail (.outOfRange index) : Run α) := fail nofun

theorem nth [Host] (h₀ : Allows P "nth" 0) (h₁ : Allows P "nth" 1) (room : Room) {u : Value}
    (hraised : AllowsRaised P u) (v : Value) : Blames P w (Sequences.nth room u v) := by
  have hitems (w : World) : Blames P w (Sequences.indexedItems room u) := by
    refine seq (look _) fun found w => ?_
    cases found with
    | some vs => exact pure _
    | none => exact items h₀ room hraised
  refine seq (integerArgument h₁ v) fun _ w => seq (hitems w) fun _ _ => ?_
  split
  · exact pure _
  · split
    · exact outOfRange _
    · exact crash _

/-- What is no list is measured without a complaint of the language, unless it is an object of the
host. -/
theorem size [Host] {v : Value} (hlist : ∀ r, v ≠ .cell r) (hraised : AllowsRaised P v)
    (room : Room) :
    Blames P w (Run.size room v) := by
  have hmeasured {v : Value} (hlist : ∀ r, v ≠ .cell r) :
      Blames P w (Run.lookOrStop (·.sizeOf room v)) := by
    refine lookOrStop fun w => ?_
    cases v with
    | cell r => exact absurd rfl (hlist r)
    | _ => first | exact .ok _ | exact .crash _
  cases v with
  | object r =>
    exact seq (look _) fun _ w => ite (hraised r rfl room w).2 (seq (look _) fun _ _ => crash _)
  | _ => exact hmeasured hlist

theorem count [Host] (h : Allows P "/count" 0) (room : Room) {v : Value}
    (hraised : AllowsRaised P v) :
    Blames P w (Sequences.count room v) := by
  unfold Sequences.count
  split
  · exact pure _
  · exact seq (items h room hraised) fun _ _ => pure _
  · rename_i hcell
    exact seq (look _) fun _ _ => ite (seq (size hcell hraised room) fun _ _ => pure _)
      (seq (items h room hraised) fun _ _ => pure _)

theorem first [Host] (h : Allows P "first" 0) (room : Room) {v : Value}
    (hraised : AllowsRaised P v) :
    Blames P w (Sequences.first room v) := by
  refine bind (cursor h v) fun c w' hc => seq ?_ fun next w => ?_
  · obtain ⟨rfl, hcursor⟩ := cursor_of_run hc
    exact next_start hraised hcursor room
  · cases next <;> exact pure _

theorem rest [Host] (h : Allows P "rest" 0) (room : Room) {v : Value} (hraised : AllowsRaised P v) :
    Blames P w (Sequences.rest room v) := by
  unfold Sequences.rest
  split
  · exact look _
  · exact seq (items h room hraised) fun _ _ => list _

theorem reverse [Host] (h : Allows P "reverse" 0) (room : Room) {v : Value}
    (hraised : AllowsRaised P v) :
    Blames P w (Sequences.reverse room v) := by
  unfold Sequences.reverse
  split
  · exact pure _
  · exact seq (items h room hraised) fun _ _ => vector _
  · exact seq (items h room hraised) fun _ _ => list _

theorem append [Host] {args : List Value} (h : ∀ j, j < args.length → Allows P "append" j)
    (hraised : ∀ v ∈ args, AllowsRaised P v) (room : Room) :
    Blames P w (Sequences.append room args) := by
  have hrest : ∀ tail w, Blames P w (do
      let items ← Sequences.columns room "append" 0 args.dropLast
      Run.listWithTail items.flatten tail) := fun tail w =>
    seq (columns (fun j _ hlt => h j (by rw [List.length_dropLast] at hlt; omega))
      (fun v hv => hraised v (List.dropLast_subset _ hv)) room) fun _ _ => make _
  unfold Sequences.append
  split
  · exact pure _
  · rename_i v hv
    have hlast : args.length - 1 < args.length := by
      cases args with
      | nil => cases hv
      | cons => simp
    dsimp only
    split
    · exact seq (pure _) hrest
    · exact seq (pure _) hrest
    · exact seq (items (h _ hlast) room (hraised _ (List.mem_of_getLast? hv))) fun _ _ =>
        seq (list _) hrest

theorem range {args : List Value} (h : ∀ j, j < args.length → Allows P "range" j) :
    Blames P w (Sequences.range args) := by
  have hrange : ∀ start stop step w, Blames P w (Sequences.ofRange start stop step) :=
    fun _ _ _ _ => ite (crash _) (list _)
  unfold Sequences.range
  split
  · exact seq (integerArgument (h 0 (by simp)) _) fun _ _ => hrange _ _ _ _
  · exact seq (integerArgument (h 0 (by simp)) _) fun _ _ =>
      seq (integerArgument (h 1 (by simp)) _) fun _ _ => hrange _ _ _ _
  · exact seq (integerArgument (h 0 (by simp)) _) fun _ _ =>
      seq (integerArgument (h 1 (by simp)) _) fun _ _ =>
        seq (integerArgument (h 2 (by simp)) _) fun _ _ =>
          ite (wrongArgument (h 2 (by simp)) _ _) (hrange _ _ _ _)
  · exact miscounted _ _ _

theorem toListValue [Host] (h : Allows P "to-list" 0) (room : Room) {v : Value}
    (hraised : AllowsRaised P v) :
    Blames P w (Sequences.toList room v) := by
  unfold Sequences.toList
  split
  · exact pure _
  · exact pure _
  · exact seq (items h room hraised) fun _ _ => list _

theorem toVector [Host] (h : Allows P "to-vector" 0) (room : Room) {v : Value}
    (hraised : AllowsRaised P v) :
    Blames P w (Sequences.toVector room v) := by
  unfold Sequences.toVector
  split
  · exact seq (look _) fun es _ => seq (mapM (fun _ _ => vector _) es) fun _ _ => vector _
  · exact seq (items h room hraised) fun _ _ => vector _

theorem displayAll (room : Room) (vs : List Value) : Blames P w (Run.displayAll room vs) :=
  seq (mapM (fun v _ => displayed room v) vs) fun _ _ => pure _

theorem join [Host] (h₀ : Allows P "string-join" 0) (h₁ : Allows P "string-join" 1)
    (u : Value) {v : Value} (hdotted : AllowsDotted P v) (hraised : AllowsRaised P v)
    (room : Room) :
    Blames P w (Texts.join room u v) := by
  refine seq (textArgument h₀ u) fun _ w => bind (cursor h₁ v) fun c w' hc => ?_
  obtain ⟨rfl, hcursor⟩ := cursor_of_run hc
  refine seq (map (fun v _ => displayed room v) (fun v w text w' htext => ?_)
    (allowed_cursor hdotted hraised hcursor) room) fun _ _ => pure _
  rw [Run.displayed, Run.run_lookOrStop] at htext
  split at htext <;> cases htext
  rfl

theorem ofSymbol (h : Allows P "symbol->string" 0) (v : Value) : Blames P w (Texts.ofSymbol v) := by
  cases v with
  | sym s => exact pure _
  | _ => exact wrongArgument h _ _

/-! ## Sorting -/

section
variable {less : α → α → Run Bool} (hless : ∀ a b w, Blames P w (less a b))
include hless

theorem ascend (last : α) (run xs : List α) : Blames P w (Sorting.ascend less last run xs) := by
  induction xs generalizing last run w with
  | nil => exact pure _
  | cons x xs ih => exact seq (hless x last w) fun _ _ => ite (pure _) (ih _ _)

theorem descend (last : α) (run xs : List α) : Blames P w (Sorting.descend less last run xs) := by
  induction xs generalizing last run w with
  | nil => exact pure _
  | cons x xs ih => exact seq (hless x last w) fun _ _ => ite (ih _ _) (pure _)

theorem leadingRun (xs : List α) : Blames P w (Sorting.leadingRun less xs) := by
  match xs with
  | [] => exact pure _
  | [_] => exact pure _
  | x :: y :: rest =>
    exact seq (hless y x w) fun _ _ => ite (descend hless y _ rest)
      (seq (ascend hless y _ rest) fun _ _ => pure _)

theorem insertWithin (x : α) (fuel : Nat) (xs : List α) :
    Blames P w (Sorting.insertWithin less x fuel xs) := by
  induction fuel generalizing xs w with
  | zero => exact pure _
  | succ n ih =>
    unfold Sorting.insertWithin
    split
    · exact pure _
    · exact seq (hless x _ w) fun _ _ => ite (seq (ih _) fun _ _ => pure _)
        (seq (ih _) fun _ _ => pure _)

theorem insertAll (sorted xs : List α) : Blames P w (Sorting.insertAll less sorted xs) := by
  induction xs generalizing sorted w with
  | nil => exact pure _
  | cons x xs ih => exact seq (insertWithin hless x _ sorted) fun s _ => ih s

theorem sortBy (xs : List α) : Blames P w (Sorting.sort less xs) :=
  seq (leadingRun hless xs) fun p _ => insertAll hless p.1 p.2

end

/-! ## Functions that call back -/

section
variable {call : Caller} {f : Value} (hcall : ∀ args w, Blames P w (call f args))
include hcall

theorem keep (kept vs : List Value) :
    Blames P w (Sequences.keep (fun x => call f [x]) kept vs) := by
  induction vs generalizing kept w with
  | nil => exact pure _
  | cons v vs ih => exact seq (hcall [v] w) fun _ _ => ite (ih _) (ih _)

theorem foldLeft (acc : Value) (vs : List Value) :
    Blames P w (Sequences.foldLeft (fun a x => call f [a, x]) acc vs) := by
  induction vs generalizing acc w with
  | nil => exact pure _
  | cons v vs ih => exact seq (hcall [acc, v] w) fun a _ => ih a

theorem precedes (u v : Value) : Blames P w (Sequences.precedes call f u v) := by
  have hother (w : World) : Blames P w (discard (call f [v, u])) := by
    show Blames P w (Function.const Value PUnit.unit <$> call f [v, u])
    rw [map_eq_pure_bind]
    exact seq (hcall [v, u] w) fun _ _ => pure _
  exact seq (hcall [u, v] w) fun _ w => ite (pure _) (seq (hother w) fun _ _ => pure _)

end

section
variable {call : Caller} {f : Value}
  (hcall : f.isCallable = true → ∀ args w, Blames P w (call f args)) (room : Room)
include hcall

theorem filter [Host] (h₀ : Allows P "filter" 0) (h₁ : Allows P "filter" 1) {v : Value}
    (hraised : AllowsRaised P v) : Blames P w (Sequences.filter room call f v) :=
  withFunction h₀ f fun hf _ => seq (items h₁ room hraised) fun items _ =>
    seq (keep (hcall hf) [] items) fun _ _ => list _

theorem mapRows [Host] {v : Value} {vs : List Value} (h : ∀ j, j < (f :: v :: vs).length →
    Allows P "map" j)
    (hraised : ∀ u ∈ v :: vs, AllowsRaised P u) : Blames P w (Sequences.map room call f v vs) := by
  refine withFunction (h 0 (by simp)) f fun hf _ => seq (columns (fun j hle hlt => ?_) hraised room)
    fun cs _ => seq (mapM (hcall hf) _) fun _ _ => list _
  exact h j (by simp only [List.length_cons] at hlt ⊢; omega)

theorem reduce [Host] (h₀ : Allows P "reduce" 0) (h₁ : Allows P "reduce" 1) {v : Value}
    (hraised : AllowsRaised P v) (start : Option Value) :
    Blames P w (Sequences.reduce room call f v start) := by
  refine withFunction h₀ f fun hf _ => seq (items h₁ room hraised) fun items w => ?_
  cases start with
  | some a => exact foldLeft (hcall hf) a items
  | none =>
    cases items with
    | nil => exact hcall hf [] w
    | cons a rest => exact foldLeft (hcall hf) a rest

theorem funcall (h : Allows P "funcall" 0) (args : List Value) :
    Blames P w (Argument.function "funcall" 0 f >>= fun f => call f args) :=
  withFunction h f fun hf w => hcall hf args w

theorem applied [Host] (h₀ : Allows P "apply" 0) {v : Value} {vs : List Value}
    (h : Allows P "apply" (vs.length + 1)) (hdotted : AllowsDotted P ((v :: vs).getLastD .nil))
    (hraised : AllowsRaised P ((v :: vs).getLastD .nil)) :
    Blames P w (Builtin.applied room call f v vs) := by
  refine withFunction h₀ f fun hf w => bind (cursor ?_ _) fun c w' hc => ?_
  · rwa [List.length_dropLast, List.length_cons, Nat.add_sub_cancel]
  · obtain ⟨rfl, hcursor⟩ := cursor_of_run hc
    exact seq (toList (allowed_cursor hdotted hraised hcursor) room) fun _ w => hcall hf _ w

end

theorem sort [Host] {call : Caller} (h₀ : Allows P "sort" 0)
    (hcompare : ∀ w left right, P w (.incomparable left right)) (less : Option Value)
    (h₁ : less.isSome = true → Allows P "sort" 1)
    (hcall : ∀ f, less = some f → f.isCallable = true → ∀ args w, Blames P w (call f args))
    (room : Room) {v : Value} (hraised : AllowsRaised P v) :
    Blames P w (Sequences.sort room call v less) := by
  refine seq (items h₀ room hraised) fun items w => ?_
  cases less with
  | none => exact seq (sortBy (fun u v _ => lessThan hcompare u v) items) fun _ _ => list _
  | some f =>
    exact withFunction (h₁ rfl) f fun hf _ =>
      seq (sortBy (fun u v _ => precedes (hcall f rfl hf) u v) items) fun _ _ => list _

end

end Run.Blames

/-! ## Calls -/

section
variable {P : World → TypeFault → Prop} {w : World}

theorem Evaluator.blames_callBack [Host] (e : Evaluator) (fuel : Nat) (site : Site) {f : Value}
    (args : List Value) (h : ∀ (site : Site) w, Run.Blames P w (e.apply fuel false site f args)) :
    Run.Blames P w (e.callBack fuel site f args) := by
  unfold Evaluator.callBack
  split
  · exact .seq (.pure _) fun _ _ => .seq (h _ _) fun _ _ => .pure _
  · exact .seq (.make _) fun _ _ => .seq (h _ _) fun _ _ => .pure _

/-- A keyword that is called complains in its own name. -/
theorem blames_callKeyword [Host] {s : Symbol} (h : Allows P s.name 0) (fuel : Nat) (site : Site)
    (args : List Value) : Run.Blames P w (call fuel site (.sym s) args) := by
  cases fuel with
  | zero => exact .throw nofun
  | succ n =>
    refine Evaluator.blames_callBack _ n site args fun site w => ?_
    exact .ite (.seq (.ofKeyword h args) fun _ _ => .pure _) (.fail nofun)

/-- A call of a built-in function complains as the function does. -/
theorem blames_callBuiltin [Host] {b : Builtin} {args : List Value}
    (h : ∀ room n site w, Run.Blames P w (b.run room (call n site) args)) (fuel : Nat)
    (site : Site) :
    Run.Blames P w (call fuel site (.builtin b) args) := by
  cases fuel with
  | zero => exact .throw nofun
  | succ n =>
    refine Evaluator.blames_callBack _ n site args fun site w => .seq (.seq ?_ fun inner w => ?_)
      fun _ _ => .pure _
    · unfold Site.deeper
      split
      · exact .pure _
      · exact .throw nofun
    · exact .orHostFault _ (h _ _ _ _)

end

/-! ## All built-in functions -/

/-- Code of the host has left this world and stopped with a type error of the language, when it was
asked for an element of an object or for its size. -/
def Host.Raises [Host] (r : ObjectRef) (w : World) (f : TypeFault) : Prop :=
  ∃ room w₀ pos,
    (∃ index, (Host.elementAt room r index).run w₀ = .error (.error ⟨.type f, pos⟩) w) ∨
    (Host.sizeOf room r).run w₀ = .error (.error ⟨.type f, pos⟩) w

namespace Builtin

/-- The names in which a function may complain: those it is bound to, and those of keywords that it
is given to call. -/
def SpeaksAs (b : Builtin) (args : List Value) (name : String) : Prop :=
  (name, .builtin b) ∈ rootBindings ∨ ∃ s, .sym s ∈ args ∧ s.name = name

/-- The arguments that a function walks through without having looked at where they end. -/
def WalksUnchecked (b : Builtin) (count i : Nat) : Prop :=
  match b with
  | .apply => i + 1 = count
  | .stringJoin | .assoc | .assocValue => i = 1
  | .get => i = 0
  | .newMap => True
  | _ => False

/-- What a built-in function says of its arguments in a type error. -/
inductive Complaint [Host] (b : Builtin) (args : List Value) (w : World) : TypeFault → Prop
  /-- The error names the function and one of the arguments. -/
  | named {f : TypeFault} {name : String} {i : Nat} (function : f.function? = some name)
      (speaks : b.SpeaksAs args name) (index : f.argumentIndex? = some i)
        (valid : i < args.length) :
      Complaint b args w f
  /-- The error names nothing: a list that was walked through ends in something else than `nil`. -/
  | unnamed {text : String} {i : Nat} {r : CellRef} {cells : List Cell} {last : Value}
      (walks : b.WalksUnchecked args.length i) (argument : args[i]? = some (.cell r))
      (spine : w.Spine (.cell r) cells last) (dotted : last ≠ .nil) :
      Complaint b args w (.improperList text)
  /-- The error is one that the host raised, on a walk through an object of its own among the
  arguments or in measuring it. -/
  | raised {f : TypeFault} {r : ObjectRef} (argument : .object r ∈ args)
    (raises : Host.Raises r w f) :
      Complaint b args w f

variable {b : Builtin} {args : List Value}

theorem allows [Host] {name : String} (hname : (name, .builtin b) ∈ rootBindings) {i : Nat}
    (hi : i < args.length) : Allows (b.Complaint args) name i :=
  fun _ _ _ => .named rfl (.inl hname) rfl hi

theorem allowsRaised [Host] {v : Value} (hv : v ∈ args) : AllowsRaised (b.Complaint args) v := by
  rintro r rfl room w
  exact ⟨fun index f pos w' h => .raised hv ⟨room, w, pos, .inl ⟨index, h⟩⟩,
    fun f pos w' h => .raised hv ⟨room, w, pos, .inr h⟩⟩

theorem allowsDotted [Host] {i : Nat} (hwalks : b.WalksUnchecked args.length i) {v : Value}
    (hv : args[i]? = some v) : AllowsDotted (b.Complaint args) v := by
  rintro w r cells last text rfl hspine hlast
  exact .unnamed hwalks hv hspine hlast

end Builtin

namespace Run.Blames

open Builtin

/-- Every built-in function complains about its arguments only, if it does not call functions of the
program. -/
theorem builtin [Host] {b : Builtin} {args : List Value}
    (hargs : ∀ v ∈ args, v.isCallable = true → ∃ s, v = .sym s) (room : Room)
    (n : Nat) (site : Site) (w : World) :
    Blames (b.Complaint args) w (b.run room (call n site) args) := by
  have hcall : ∀ f ∈ args, f.isCallable = true → ∀ xs w,
      Blames (b.Complaint args) w (call n site f xs) := by
    intro f hf hcallable xs w
    obtain ⟨s, rfl⟩ := hargs f hf hcallable
    exact blames_callKeyword (fun _ _ _ => .named rfl (.inr ⟨s, hf, rfl⟩) rfl
      (List.length_pos_of_mem hf)) n site xs
  have hat {name : String} (hname : (name, .builtin b) ∈ rootBindings) (j : Nat)
    (hj : j < args.length) :
      Allows (b.Complaint args) name j := allows hname hj
  have hdot (i : Nat) (hwalks : b.WalksUnchecked args.length i) {v : Value}
    (hv : args[i]? = some v) :
      AllowsDotted (b.Complaint args) v := allowsDotted hwalks hv
  have hobject {v : Value} (hv : v ∈ args) : AllowsRaised (b.Complaint args) v := allowsRaised hv
  have hpredicate (name : String) (test : Value → Bool) :
      Blames (b.Complaint args) w (predicate name test args) := unary _ fun _ _ => pure _
  -- A function of one sequence complains about its argument, or the host does.
  have hwalk {name : String} {f : Value → Run Value} (hname : (name, .builtin b) ∈ rootBindings)
      (hf : ∀ v, Allows (b.Complaint args) name 0 → AllowsRaised (b.Complaint args) v →
        Blames (b.Complaint args) w (f v)) :
      Blames (b.Complaint args) w (Argument.unary name f args) :=
    unary name fun v hv => hf v (hat hname 0 (by simp [hv])) (hobject (by simp [hv]))
  cases b with
  | not | isNil | isNumber | isString | isSymbol | isKeyword | isList | isFunction =>
    exact hpredicate _ _
  | add => exact sum (hat (by simp [rootBindings]))
  | mul =>
    refine seq (fold _ _ fun j _ hlt => ?_) fun _ _ => number _
    exact hat (by simp [rootBindings]) j (by omega)
  | sub => exact oneOrMore _ fun v vs hvs => hvs ▸ difference (hvs ▸ hat (by simp [rootBindings]))
  | div => exact oneOrMore _ fun v vs hvs => quotient (hvs ▸ hat (by simp [rootBindings]))
  | less | lessEq | greater | greaterEq =>
    exact oneOrMore _ fun v vs hvs =>
      ordered (hvs ▸ hat (by simp [rootBindings, Comparison.Order.name]))
  | equals | notEquals =>
    exact oneOrMore _ fun v vs _ => seq (allEqual room v vs) fun _ _ => pure _
  | mod =>
    exact binary _ fun u v huv => remainder (hat (by simp [rootBindings]) 0 (by simp [huv]))
      (hat (by simp [rootBindings]) 1 (by simp [huv])) u v
  | inc | dec =>
    exact unary _ fun v hv => seq (numberArgument (hat (by simp [rootBindings]) 0 (by simp [hv])) v)
      fun _ _ => settle _
  | isEven | isOdd =>
    exact unary _ fun v hv =>
      seq (isMultipleOfTwo (hat (by simp [rootBindings]) 0 (by simp [hv])) v)
      fun _ _ => pure _
  | isZero =>
    exact unary _ fun v hv => seq (numberArgument (hat (by simp [rootBindings]) 0 (by simp [hv])) v)
      fun _ _ => pure _
  | cons => exact binary _ fun _ _ _ => make _
  | car => exact unary _ fun v hv => car (hat (by simp [rootBindings]) 0 (by simp [hv])) v
  | cdr => exact unary _ fun v hv => cdr (hat (by simp [rootBindings]) 0 (by simp [hv])) v
  | setCar =>
    exact binary _ fun u v huv => setFirst (hat (by simp [rootBindings]) 0 (by simp [huv])) u v
  | setCdr =>
    exact binary _ fun u v huv => setSecond (hat (by simp [rootBindings]) 0 (by simp [huv])) u v
  | list => exact list _
  | println | print => exact seq (displayAll room _) fun _ _ => seq (modify _) fun _ _ => pure _
  | lowerCase | upperCase | stringToSymbol =>
    exact unary _ fun v hv => seq (textArgument (hat (by simp [rootBindings]) 0 (by simp [hv])) v)
      fun _ _ => pure _
  | str => exact seq (displayAll room _) fun _ _ => pure _
  | symbolToString =>
    exact unary _ fun v hv => ofSymbol (hat (by simp [rootBindings]) 0 (by simp [hv])) v
  | nth =>
    exact binary _ fun u v huv => nth (hat (by simp [rootBindings]) 0 (by simp [huv]))
      (hat (by simp [rootBindings]) 1 (by simp [huv])) room (hobject (by simp [huv])) v
  | count => exact hwalk (by simp [rootBindings]) fun v h hv => count h room hv
  | first => exact hwalk (by simp [rootBindings]) fun v h hv => first h room hv
  | second =>
    exact hwalk (by simp [rootBindings]) fun v h hv => seq (items h room hv) fun _ _ => pure _
  | last =>
    exact hwalk (by simp [rootBindings]) fun v h hv => seq (items h room hv) fun _ _ => pure _
  | rest => exact hwalk (by simp [rootBindings]) fun v h hv => rest h room hv
  | reverse => exact hwalk (by simp [rootBindings]) fun v h hv => reverse h room hv
  | append => exact append (hat (by simp [rootBindings])) (fun v hv => hobject hv) room
  | range => exact range (hat (by simp [rootBindings]))
  | toList => exact hwalk (by simp [rootBindings]) fun v h hv => toListValue h room hv
  | toVector => exact hwalk (by simp [rootBindings]) fun v h hv => toVector h room hv
  | keys | vals =>
    exact unary _ fun v hv => seq (entriesOf (hat (by simp [rootBindings]) 0 (by simp [hv])) v)
      fun _ _ => list _
  | entries => exact unary _ fun v hv => entries (hat (by simp [rootBindings]) 0 (by simp [hv])) v
  | mapSet =>
    exact ternary _ fun v k x h => set (hat (by simp [rootBindings]) 0 (by simp [h]))
      (hat (by simp [rootBindings]) 1 (by simp [h])) room v k x
  | stringJoin =>
    exact binary _ fun u v huv => join (hat (by simp [rootBindings]) 0 (by simp [huv]))
      (hat (by simp [rootBindings]) 1 (by simp [huv])) u (hdot 1 rfl (by simp [huv]))
      (hobject (by simp [huv])) room
  | assoc =>
    exact binary _ fun u v huv => assoc (hat (by simp [rootBindings]) 1 (by simp [huv]))
      (hdot 1 rfl (by simp [huv])) room u
  | assocValue =>
    exact binary _ fun u v huv =>
      assocValue (fun _ => hat (by simp [rootBindings]) 0 (by simp [huv]))
        (hat (by simp [rootBindings]) 1 (by simp [huv])) (hdot 1 rfl (by simp [huv])) room
  | get =>
    exact binaryOrTernary _ fun v k d h =>
      get (fun _ => hat (by simp [rootBindings]) 0 (by simp [h]))
        (hat (by simp [rootBindings]) 1 (by simp [h])) (hdot 0 rfl (by simp [h])) room d
  | newMap =>
    refine seq (collect _ (fun j _ hlt => hat (by simp [rootBindings]) j (by omega))
      (fun v hv => ?_)
      room) fun _ _ => make _
    obtain ⟨i, hi⟩ := List.mem_iff_getElem?.1 hv
    exact hdot i trivial hi
  | funcall =>
    exact oneOrMore _ fun f xs h => funcall (hcall f (by simp [h]))
      (hat (by simp [rootBindings]) 0 (by simp [h])) xs
  | apply =>
    refine twoOrMore _ fun f v vs h => ?_
    have hlast : args[vs.length + 1]? = some ((v :: vs).getLastD .nil) := by
      rw [h, List.getElem?_cons_succ, List.getLastD_eq_getLast?, List.getLast?_eq_getElem?]
      simp
    exact applied (hcall f (by simp [h])) room (hat (by simp [rootBindings]) 0 (by simp [h]))
      (hat (by simp [rootBindings]) (vs.length + 1) (by simp [h]))
      (hdot (vs.length + 1) (by simp [WalksUnchecked, h]) hlast)
        (hobject (List.mem_of_getElem? hlast))
  | filter =>
    exact binary _ fun f v h => filter (hcall f (by simp [h])) room
      (hat (by simp [rootBindings]) 0 (by simp [h])) (hat (by simp [rootBindings]) 1 (by simp [h]))
      (hobject (by simp [h]))
  | map =>
    exact twoOrMore _ fun f v vs h => mapRows (hcall f (by simp [h])) room
      (h ▸ hat (by simp [rootBindings])) fun u hu => hobject (h ▸ List.mem_cons_of_mem f hu)
  | reduce =>
    exact binaryOrTernary _ fun f v start h => reduce (hcall f (by simp [h])) room
      (hat (by simp [rootBindings]) 0 (by simp [h])) (hat (by simp [rootBindings]) 1 (by simp [h]))
      (hobject (by simp [h])) start
  | sort =>
    refine unaryOrBinary _ fun v less h => sort (hat (by simp [rootBindings]) 0 (by simp [h]))
      (fun _ _ _ => .named rfl (.inl (by simp [rootBindings])) rfl (by simp [h])) less
        (fun hless => ?_)
      (fun f hf => hcall f (by simp [h, hf])) room (hobject (by simp [h]))
    obtain ⟨f, rfl⟩ := Option.isSome_iff_exists.1 hless
    exact hat (by simp [rootBindings]) 1 (by simp [h])

end Run.Blames

/-- A type error of a built-in function that is called with arguments none of which is a function,
except for keywords, names the function and one of its arguments by a valid index, unless a list
that is walked through ends in something else than `nil`, or the host raised the error itself when
one of its objects was walked through or measured.

An error of `assoc` or `assoc-value` about an association list has the index that the list was
passed at, if any. An error of `get` about an association list has the index behind it, if any. -/
theorem Builtin.type_errors [Host] {b : Builtin} {args : List Value}
    (hargs : ∀ v ∈ args, v.isCallable = true → ∃ s, v = .sym s) {fuel : Nat} {site : Site}
    {w w' : World} {f : TypeFault} {pos : Option Pos}
    (h : (call fuel site (.builtin b) args).run w = .error (.error ⟨.type f, pos⟩) w') :
    b.Complaint args w' f ∧
    (∀ key alist, args = [key, alist] → b = .assoc ∨ b = .assocValue ∧ (∀ r, alist ≠ .map r) →
      f.argumentIndex? = some 1 ∨ f.argumentIndex? = none) ∧
    (∀ r rest, args = .cell r :: rest → b = .get →
      f.argumentIndex? = some 1 ∨ f.argumentIndex? = none) := by
  refine ⟨blames_callBuiltin (Run.Blames.builtin hargs) fuel site f pos w' h, ?_, ?_⟩
  -- The look-ups once more, now for what they say of the index.
  all_goals
    let P : World → TypeFault → Prop :=
      fun _ f => f.argumentIndex? = some 1 ∨ f.argumentIndex? = none
    have hone (name : String) : Allows P name 1 := fun _ _ _ => .inl rfl
    have hdotted (v : Value) : AllowsDotted P v := fun _ _ _ _ _ _ _ _ => .inr rfl
  · rintro key alist rfl (rfl | ⟨rfl, hmap⟩)
    · exact blames_callBuiltin (P := P)
        (fun room _ _ _ => .assoc (hone _) (hdotted alist) room key) fuel site f pos w' h
    · exact blames_callBuiltin (P := P) (fun room _ _ _ => .assocValue
        (fun ⟨r, hr⟩ => absurd hr (hmap r)) (hone _) (hdotted alist) room) fuel site f pos w' h
  · rintro r rest rfl rfl
    exact blames_callBuiltin (P := P) (fun room _ _ _ => .binaryOrTernary _ fun v key d hv =>
      .get (fun hcell => absurd (List.cons.inj hv).1.symm (hcell r)) (hone _) (hdotted v) room d)
      fuel site f pos w' h

/-- A world with the lists `(1)` and `(a . b)`. -/
def malformedWorld : World :=
  { World.empty with cells := #[⟨.int 1, .nil, none⟩, ⟨.sym ⟨"a"⟩, .sym ⟨"b"⟩, none⟩] }

open scoped SampleHost in
/-- Called with an association list that is none, `get` blames the key. Called with a list that ends
in a symbol, `string-join` blames nothing. -/
theorem Builtin.type_errors_lists :
    (∃ f, (call 1 addingSite (.builtin .get) [.cell ⟨0⟩, .sym ⟨":a"⟩]).run malformedWorld =
        .error (.error ⟨.type f, none⟩) malformedWorld ∧
      f.function? = some "get" ∧ f.argumentIndex? = some 1 ∧
      Builtin.get.Complaint [.cell ⟨0⟩, .sym ⟨":a"⟩] malformedWorld f) ∧
    ∃ f, (call 1 addingSite (.builtin .stringJoin) [.str ",", .cell ⟨1⟩]).run malformedWorld =
        .error (.error ⟨.type f, none⟩) malformedWorld ∧
      f.function? = none ∧ f.argumentIndex? = none ∧
      Builtin.stringJoin.Complaint [.str ",", .cell ⟨1⟩] malformedWorld f := by
  have hget : (call 1 addingSite (.builtin .get) [.cell ⟨0⟩, .sym ⟨":a"⟩]).run malformedWorld =
      .error (.error
        ⟨.type (.argument "get" 1 "a list of entries (entry 0 is not a list)" "int"), none⟩)
        malformedWorld := rfl
  have hjoin : (call 1 addingSite (.builtin .stringJoin) [.str ",", .cell ⟨1⟩]).run malformedWorld =
      .error (.error ⟨.type (.improperList "(a . b)"), none⟩) malformedWorld := rfl
  refine ⟨⟨_, hget, rfl, rfl, (Builtin.type_errors (fun v hv hcallable => ?_) hget).1⟩,
    ⟨_, hjoin, rfl, rfl, (Builtin.type_errors (fun v hv hcallable => ?_) hjoin).1⟩⟩
  · simp only [List.mem_cons, List.not_mem_nil, or_false] at hv
    rcases hv with rfl | rfl
    · cases hcallable
    · exact ⟨_, rfl⟩
  · simp only [List.mem_cons, List.not_mem_nil, or_false] at hv
    rcases hv with rfl | rfl <;> cases hcallable

end TemplateLisp
