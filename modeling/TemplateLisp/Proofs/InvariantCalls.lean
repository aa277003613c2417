import TemplateLisp.Proofs.InvariantHost
import TemplateLisp.Proofs.Keys

/-!
# Invariants through built-in functions

Every built-in function and every member keeps an invariant (`Invariant.Agree.builtin`,
`Invariant.Agree.member`). What a built-in function or host code calls back is a parameter, and with
two callers that agree it agrees with itself. The three functions that give a pair or a map new
contents need rules that allow it.
-/

namespace TemplateLisp

namespace Invariant.Agree

variable {I : Invariant} {w : World}

/-- A value that refers to nothing. -/
theorem atom {v : Value} (h : ∀ w : World, I.reserve.Admits w v) :
    I.Keeps w I.Valid (Pure.pure v : Run Value) := pure fun _ => h w

theorem orHostFault {α : Type} {P : World → α → Prop} (name : String) {x y : Run α}
    (hx : I.Agree w P x y) : I.Agree w P (Run.orHostFault name x) (Run.orHostFault name y) := by
  refine tryCatch hx fun s w' _ => ?_
  split
  · exact fail _
  · exact throw _

theorem orAccessFault {α : Type} {P : World → α → Prop} (mayRefuse : Bool) (name : String)
    (asFault : HostFault → AccessFault) {x y : Run α} (hx : I.Agree w P x y) :
    I.Agree w P (Run.orAccessFault mayRefuse name asFault x)
      (Run.orAccessFault mayRefuse name asFault y) :=
  tryCatch hx fun _ _ _ => throw _

/-! ## Arguments -/

theorem numberArgument (name : String) (index : Nat) (v : Value) :
    I.Keeps w Anything (Argument.number name index v) := by
  unfold Argument.number
  split
  · exact pure trivial
  · exact wrongArgument _ _ _ _

theorem integerArgument (name : String) (index : Nat) (v : Value) :
    I.Keeps w Anything (Argument.integer name index v) := by
  unfold Argument.integer
  split
  · exact pure trivial
  · exact wrongArgument _ _ _ _

theorem textArgument (name : String) (index : Nat) (v : Value) :
    I.Keeps w Anything (Argument.text name index v) := by
  unfold Argument.text
  split
  · exact pure trivial
  · exact wrongArgument _ _ _ _

theorem functionArgument (name : String) (index : Nat) {v : Value} (hv : I.Valid w v) :
    I.Keeps w I.Valid (Argument.function name index v) :=
  ite (fun _ => pure hv) fun _ => wrongArgument _ _ _ _

section
variable {args : List Value} (hargs : I.ValidAll w args) (name : String)
include hargs

theorem unary {f g : Value → Run Value} (hf : ∀ v, I.Valid w v → I.Agree w I.Valid (f v) (g v)) :
    I.Agree w I.Valid (Argument.unary name f args) (Argument.unary name g args) := by
  match args, hargs with
  | [v], hargs => exact hf v hargs.head
  | [], _ => exact fail _
  | _ :: _ :: _, _ => exact fail _

theorem binary {f g : Value → Value → Run Value}
    (hf : ∀ u v, I.Valid w u → I.Valid w v → I.Agree w I.Valid (f u v) (g u v)) :
    I.Agree w I.Valid (Argument.binary name f args) (Argument.binary name g args) := by
  match args, hargs with
  | [u, v], hargs => exact hf u v hargs.head hargs.tail.head
  | [], _ => exact fail _
  | [_], _ => exact fail _
  | _ :: _ :: _ :: _, _ => exact fail _

theorem ternary {f : Value → Value → Value → Run Value}
    (hf : ∀ t u v, I.Valid w t → I.Valid w u → I.Valid w v → I.Keeps w I.Valid (f t u v)) :
    I.Keeps w I.Valid (Argument.ternary name f args) := by
  match args, hargs with
  | [t, u, v], hargs => exact hf t u v hargs.head hargs.tail.head hargs.tail.tail.head
  | [], _ => exact fail _
  | [_], _ => exact fail _
  | [_, _], _ => exact fail _
  | _ :: _ :: _ :: _ :: _, _ => exact fail _

theorem unaryOrBinary {f g : Value → Option Value → Run Value}
    (hf : ∀ u v, I.Valid w u → (∀ x ∈ v, I.Valid w x) → I.Agree w I.Valid (f u v) (g u v)) :
    I.Agree w I.Valid (Argument.unaryOrBinary name f args)
      (Argument.unaryOrBinary name g args) := by
  match args, hargs with
  | [u], hargs => exact hf u none hargs.head fun x hx => nomatch hx
  | [u, v], hargs =>
    exact hf u (some v) hargs.head fun x hx => Option.mem_some.1 hx ▸ hargs.tail.head
  | [], _ => exact fail _
  | _ :: _ :: _ :: _, _ => exact fail _

theorem binaryOrTernary {f g : Value → Value → Option Value → Run Value}
    (hf : ∀ t u v, I.Valid w t → I.Valid w u → (∀ x ∈ v, I.Valid w x) →
      I.Agree w I.Valid (f t u v) (g t u v)) :
    I.Agree w I.Valid (Argument.binaryOrTernary name f args)
      (Argument.binaryOrTernary name g args) := by
  match args, hargs with
  | [t, u], hargs => exact hf t u none hargs.head hargs.tail.head fun x hx => nomatch hx
  | [t, u, v], hargs =>
    exact hf t u (some v) hargs.head hargs.tail.head
      fun x hx => Option.mem_some.1 hx ▸ hargs.tail.tail.head
  | [], _ => exact fail _
  | [_], _ => exact fail _
  | _ :: _ :: _ :: _ :: _, _ => exact fail _

theorem oneOrMore {f g : Value → List Value → Run Value}
    (hf : ∀ v vs, I.Valid w v → I.ValidAll w vs → I.Agree w I.Valid (f v vs) (g v vs)) :
    I.Agree w I.Valid (Argument.oneOrMore name f args) (Argument.oneOrMore name g args) := by
  match args, hargs with
  | v :: vs, hargs => exact hf v vs hargs.head hargs.tail
  | [], _ => exact fail _

theorem twoOrMore {f g : Value → Value → List Value → Run Value}
    (hf : ∀ u v vs, I.Valid w u → I.Valid w v → I.ValidAll w vs →
      I.Agree w I.Valid (f u v vs) (g u v vs)) :
    I.Agree w I.Valid (Argument.twoOrMore name f args) (Argument.twoOrMore name g args) := by
  match args, hargs with
  | u :: v :: vs, hargs => exact hf u v vs hargs.head hargs.tail.head hargs.tail.tail
  | [], _ => exact fail _
  | [_], _ => exact fail _

end

/-! ## Numbers and comparison -/

theorem settle (r : Except NumberFault Number) : I.Keeps w I.Valid (Arithmetic.settle r) := by
  cases r with
  | ok n => exact number n
  | error f => exact crash _

theorem fold (name : String) (op : Number → Number → Except NumberFault Number) (index : Nat)
    (acc : Number) (vs : List Value) :
    I.Keeps w Anything (Arithmetic.fold name op index acc vs) := by
  induction vs generalizing index acc w with
  | nil => exact pure trivial
  | cons v vs ih =>
    refine bind (numberArgument name index v) fun x w _ _ => ?_
    split
    · exact ih _ _
    · exact bind (typeName _) fun _ _ _ _ => wrongArgument _ _ _ _
    · exact fail _
    · exact crash _

/-- The number that a fold gives is given as a value. -/
theorem foldNumber (name : String) (op : Number → Number → Except NumberFault Number) (index : Nat)
    (acc : Number) (vs : List Value) :
    I.Keeps w I.Valid (Arithmetic.fold name op index acc vs >>= Run.number) :=
  bind (fold name op index acc vs) fun _ _ _ _ => number _

theorem sum (args : List Value) : I.Keeps w I.Valid (Arithmetic.sum args) := by
  unfold Arithmetic.sum
  split
  · exact atom fun _ => trivial
  · exact bind (numberArgument _ _ _) fun _ _ _ _ => atom fun _ => trivial
  · exact bind (numberArgument _ _ _) fun _ _ _ _ => foldNumber _ _ _ _ _

theorem difference (v : Value) (vs : List Value) : I.Keeps w I.Valid (Arithmetic.difference v vs) :=
  bind (numberArgument _ _ v) fun _ _ _ _ => ite (fun _ => settle _) fun _ => foldNumber _ _ _ _ _

theorem quotient (v : Value) (vs : List Value) : I.Keeps w I.Valid (Arithmetic.quotient v vs) := by
  refine bind (numberArgument _ _ v) fun _ _ _ _ => ite (fun _ => ?_) fun _ => foldNumber _ _ _ _ _
  split
  · exact fail _
  · exact settle _

theorem remainder (u v : Value) : I.Keeps w I.Valid (Arithmetic.remainder u v) := by
  refine bind (numberArgument _ _ u) fun _ _ _ _ => bind (numberArgument _ _ v) fun _ _ _ _ => ?_
  split
  · exact fail _
  · exact look fun _ => look fun _ => crash _
  · exact settle _

theorem isMultipleOfTwo (name : String) (v : Value) :
    I.Keeps w Anything (Arithmetic.isMultipleOfTwo name v) := by
  refine bind (numberArgument name _ v) fun _ _ _ _ => ?_
  split
  · exact pure trivial
  · exact crash _

theorem allEqual (room : Room) (first : Value) (vs : List Value) :
    I.Keeps w Anything (Comparison.allEqual room first vs) := by
  induction vs generalizing w with
  | nil => exact pure trivial
  | cons v vs ih =>
    refine bind (P := Anything) (lookOrStop fun _ _ _ => trivial) fun same _ _ _ => ?_
    exact ite (fun _ => ih) fun _ => pure trivial

theorem checkComparable (name : String) (index : Nat) (vs : List Value) :
    I.Keeps w Anything (Comparison.checkComparable name index vs) := by
  induction vs generalizing index with
  | nil => exact pure trivial
  | cons v vs ih =>
    cases v with
    | num n => exact ih _
    | str s => exact ih _
    | _ => exact wrongArgument _ _ _ _

theorem inOrder (o : Comparison.Order) (index : Nat) (u : Value) (vs : List Value) :
    I.Keeps w Anything (Comparison.inOrder o index u vs) := by
  induction vs generalizing index u w with
  | nil => exact pure trivial
  | cons v vs ih =>
    have hrest : ∀ (holds : Bool) w', w.Grows w' → True → I.Keeps w' Anything
        (if holds = true then Comparison.inOrder o (index + 1) v vs else Pure.pure false) :=
      fun _ _ _ _ => ite (fun _ => ih _ v) fun _ => pure trivial
    unfold Comparison.inOrder
    dsimp only
    split
    · split
      · exact bind (pure trivial) hrest
      · exact bind (crash _) hrest
    · exact bind (pure trivial) hrest
    · exact bind (typeName _) fun _ w₁ h₁ _ => bind (P := Anything) (wrongArgument _ _ _ _)
        fun holds w₂ h₂ _ => hrest holds w₂ (h₁.trans h₂) trivial

theorem ordered (o : Comparison.Order) (v : Value) (vs : List Value) :
    I.Keeps w I.Valid (Comparison.ordered o v vs) :=
  bind (checkComparable _ _ _) fun _ _ _ _ => bind (inOrder o _ v vs) fun _ _ _ _ =>
    atom fun _ => trivial

/-! ## Maps and pairs -/

theorem findEntryAt [Host] [I.AllowsHost] (room : Room) (name : String) (key : Value)
    (fuel index : Nat) {c : Cursor} (hc : I.ValidCursor w c) :
    I.Keeps w (fun w found => ∀ r ∈ found, I.Valid w (.cell r))
      (Maps.findEntryAt room name key fuel index c) := by
  induction fuel generalizing index c w with
  | zero => exact throw _
  | succ n ih =>
    refine bind (next room hc) fun found w₁ h₁ hnext => ?_
    split
    · exact pure fun r hr => nomatch hr
    · exact ih _ (hnext _ rfl).2
    · rename_i r c'
      obtain ⟨hentry, hc'⟩ := hnext _ rfl
      refine bind (P := Anything) (lookOrStop fun _ _ _ => trivial) fun same w₂ h₂ _ => ?_
      refine ite (fun _ => pure fun r' hr' => ?_) fun _ => ih _ (hc'.mono h₂)
      cases hr'
      exact hentry.mono h₂
    · exact wrongArgument _ _ _ _

theorem findEntry [Host] [I.AllowsHost] (room : Room) (name : String) (key : Value) {alist : Value}
    (halist : I.Valid w alist) :
    I.Keeps w (fun w found => ∀ r ∈ found, I.Valid w (.cell r))
      (Maps.findEntry room name key alist) := by
  cases alist with
  | nil => exact pure fun r hr => nomatch hr
  | cell r => exact look fun _ => findEntryAt room name key _ _ ⟨halist, fun _ hr => nomatch hr⟩
  | _ => exact wrongArgument _ _ _ _

theorem entryValue {r : CellRef} (hr : I.Valid w (.cell r)) :
    I.Keeps w I.Valid (Maps.entryValue r) := by
  refine look fun hw => ?_
  have hrest := hw.cdr hr
  cases hcdr : (w.cell r).cdr with
  | cell s => exact looked fun hw => hw.car (hcdr ▸ hrest)
  | _ => exact pure (hcdr ▸ hrest)

/-- The value of an entry that has been found, or another one. -/
theorem foundValue {found : Option CellRef} {absent : Value} (habsent : I.Valid w absent) :
    (∀ r ∈ found, I.Valid w (.cell r)) → I.Keeps w I.Valid (match found with
      | some e => Maps.entryValue e
      | none => Pure.pure absent) := by
  intro hfound
  cases found with
  | some r => exact entryValue (hfound r rfl)
  | none => exact pure habsent

theorem assoc [Host] [I.AllowsHost] (room : Room) (key : Value) {alist : Value}
    (halist : I.Valid w alist) :
    I.Keeps w I.Valid (Maps.assoc room key alist) := by
  refine bind (findEntry room _ key halist) fun found w' _ hfound => ?_
  cases found with
  | some r => exact pure (hfound r rfl)
  | none => exact atom fun _ => trivial

theorem checkKey (name : String) (index : Nat) (key : Value) :
    I.Keeps w Anything (Maps.checkKey name index key) :=
  look fun _ => ite (fun _ => pure trivial) fun _ => wrongArgument _ _ _ _

theorem lookUp?_mem {room : Room} {key : Value} {entries : List (Value × Value)} {v : Value}
    (h : w.lookUp? room entries key = .ok (some v)) : ∃ e ∈ entries, e.2 = v := by
  unfold World.lookUp? at h
  split at h
  · cases h
    exact findKey?_mem ‹_›
  · cases hmatch : w.matchingKey? room key entries with
    | error s =>
      rw [hmatch] at h
      cases h
    | ok found =>
      rw [hmatch] at h
      cases found with
      | none => cases h
      | some k => exact findKey?_mem (Except.ok.inj h)

theorem valueAt? (room : Room) {r : MapRef} (hr : I.Valid w (.map r)) (key : Value)
    {absent : Value} (habsent : I.Valid w absent) :
    I.Keeps w I.Valid (do return (← Maps.valueAt? room r key).getD absent) := by
  refine bind (P := fun w found => ∀ v ∈ found, I.Valid w v)
    (lookOrStop fun hw found hfound v hv => ?_) fun found w' hw hfound => pure ?_
  · cases hv
    obtain ⟨e, he, rfl⟩ := lookUp?_mem hfound
    exact (hw.entries hr e he).2
  · cases found with
    | some v => exact hfound v rfl
    | none => exact habsent.mono hw

theorem assocValue [Host] [I.AllowsHost] (room : Room) (key : Value) {v : Value}
    (hv : I.Valid w v) :
    I.Keeps w I.Valid (Maps.assocValue room key v) := by
  unfold Maps.assocValue
  split
  · exact bind (checkKey _ _ key) fun _ _ hw _ => valueAt? room (hv.mono hw) key valid_nil
  · exact bind (findEntry room _ key hv) fun found _ _ hfound => foundValue valid_nil hfound

theorem get [Host] [I.AllowsHost] (room : Room) {v key : Value} {default? : Option Value}
    (hv : I.Valid w v) (hdefault : ∀ x ∈ default?, I.Valid w x) :
    I.Keeps w I.Valid (Maps.get room v key default?) := by
  have habsent : I.Valid w (default?.getD .nil) := by
    cases default? with
    | some x => exact hdefault x rfl
    | none => exact valid_nil
  unfold Maps.get
  dsimp only
  split
  · exact pure habsent
  · exact bind (checkKey _ _ key) fun _ _ hw _ => valueAt? room (hv.mono hw) key (habsent.mono hw)
  · exact bind (findEntry room _ key hv) fun found _ hw hfound =>
      foundValue (habsent.mono hw) hfound
  · exact wrongArgument _ _ _ _

theorem set (hmutation : I.mutation) (room : Room) {v key value : Value} (hv : I.Valid w v)
    (hkey : I.Valid w key) (hvalue : I.Valid w value) :
    I.Keeps w I.Valid (Maps.set room v key value) := by
  cases v with
  | map r =>
    refine bind (checkKey _ _ key) fun _ w₁ h₁ _ => ?_
    refine bind (P := fun w found => I.Valid w (found.getD key))
      (lookOrStop fun hw found hfound => ?_)
      fun found w₂ h₂ hfound => ?_
    · cases found with
      | none => exact hkey.mono h₁
      | some k =>
        obtain ⟨e, he, rfl⟩ := List.mem_map.1 (World.matchingKey?_mem hfound)
        exact (hw.entries (hv.mono h₁) e he).1
    · have hmap := hv.mono (h₁.trans h₂)
      refine bind (modify fun hw => .single (.setEntries hmutation hmap ?_)) fun _ _ h₃ _ =>
        pure (hmap.mono h₃)
      exact validEntries_putKey _ (hw.entries hmap) hfound (hvalue.mono (h₁.trans h₂))
  | _ => exact wrongArgument _ _ _ _

theorem pairItems (room : Room) (index : Nat) {v : Value} (hv : I.Valid w v) :
    I.Keeps w (fun w p => I.Valid w p.1 ∧ I.Valid w p.2) (Maps.pairItems room index v) := by
  unfold Maps.pairItems
  dsimp only
  split
  all_goals
    refine bind (P := I.ValidAll) ?_ fun items w' _ hitems => ?_
    rotate_left
    · split
      · exact pure ⟨hitems.head, hitems.tail.head⟩
      · exact wrongArgument _ _ _ _
  · exact properItems room hv
  · exact looked fun hw => hw.vector hv
  · exact looked fun hw => hw.tuple _
  · exact pure validAll_nil

theorem collect (room : Room) (index : Nat) {entries : List (Value × Value)} {vs : List Value}
    (hentries : I.ValidEntries w entries) (hvs : I.ValidAll w vs) :
    I.Keeps w I.ValidEntries (Maps.collect room index entries vs) := by
  induction vs generalizing index entries w with
  | nil => exact pure hentries
  | cons v vs ih =>
    refine bind (pairItems room index hvs.head) fun p w₁ h₁ hp => ?_
    refine bind (checkKey _ _ p.1) fun _ w₂ h₂ _ => look fun _ => ?_
    have hkey : I.Valid w₂ (Maps.storedKey p.1) := by
      unfold Maps.storedKey
      split
      · exact fun _ => trivial
      · exact hp.1.mono h₂
    refine ih _ (validEntries_putKey _ (fun e he => ?_) hkey (hp.2.mono h₂))
      (hvs.tail.mono (h₁.trans h₂))
    exact ⟨(hentries e he).1.mono (h₁.trans h₂), (hentries e he).2.mono (h₁.trans h₂)⟩

theorem entriesOf (name : String) {v : Value} (hv : I.Valid w v) :
    I.Keeps w I.ValidEntries (Maps.entriesOf name v) := by
  cases v with
  | map r => exact looked fun hw => hw.entries hv
  | _ => exact wrongArgument _ _ _ _

/-- Each entry made into an object, and these into one. -/
theorem mapEntries {es : List (Value × Value)} (hes : I.ValidEntries w es)
    {make : List Value → Run Value}
    (hmake : ∀ vs w', w.Grows w' → I.ValidAll w' vs → I.Keeps w' I.Valid (make vs)) :
    I.Keeps w I.Valid (do make (← es.mapM fun (k, x) => make [k, x])) := by
  refine bind (mapM persistent_valid es fun e he w' hw => ?_) fun vs w' hw hvs =>
    hmake vs w' hw hvs
  have he := hes e he
  exact hmake _ w' hw (.cons (he.1.mono hw) (.cons (he.2.mono hw) validAll_nil))

theorem entries {v : Value} (hv : I.Valid w v) : I.Keeps w I.Valid (Maps.entries v) :=
  bind (entriesOf _ hv) fun _ _ _ hes => mapEntries hes fun _ _ _ hvs => list hvs

theorem car {v : Value} (hv : I.Valid w v) : I.Keeps w I.Valid (Pair.first v) := by
  cases v with
  | nil => exact atom fun _ => trivial
  | cell r => exact looked fun hw => hw.car hv
  | _ => exact wrongArgument _ _ _ _

theorem cdr {v : Value} (hv : I.Valid w v) : I.Keeps w I.Valid (Pair.second v) := by
  cases v with
  | nil => exact atom fun _ => trivial
  | cell r => exact looked fun hw => hw.cdr hv
  | _ => exact wrongArgument _ _ _ _

theorem setFirst (hmutation : I.mutation) {u v : Value} (hu : I.Valid w u) (hv : I.Valid w v) :
    I.Keeps w I.Valid (Pair.setFirst u v) := by
  cases u with
  | cell r =>
    exact bind (modify fun _ => .single (.setCar hmutation hu hv)) fun _ _ hw _ =>
      pure (hv.mono hw)
  | _ => exact wrongArgument _ _ _ _

theorem setSecond (hmutation : I.mutation) {u v : Value} (hu : I.Valid w u) (hv : I.Valid w v) :
    I.Keeps w I.Valid (Pair.setSecond u v) := by
  cases u with
  | cell r =>
    exact bind (modify fun _ => .single (.setCdr hmutation hu hv)) fun _ _ hw _ =>
      pure (hv.mono hw)
  | _ => exact wrongArgument _ _ _ _

/-! ## Sequences and texts -/

theorem lessThan (u v : Value) : I.Keeps w Anything (Sequences.lessThan u v) := by
  unfold Sequences.lessThan
  split
  · split
    · exact pure trivial
    · exact crash _
  · exact pure trivial
  · exact bind (typeName _) fun _ _ _ _ => failAfter (typeName _) _

theorem ofRange (start stop step : Int) :
    I.Keeps w I.Valid (Sequences.ofRange start stop step) := by
  refine ite (fun _ => crash _) fun _ => list fun x hx => ?_
  obtain ⟨i, _, rfl⟩ := List.mem_map.1 hx
  exact fun _ => trivial

theorem range (args : List Value) : I.Keeps w I.Valid (Sequences.range args) := by
  unfold Sequences.range
  split
  · exact bind (integerArgument _ _ _) fun _ _ _ _ => ofRange _ _ _
  · exact bind (integerArgument _ _ _) fun _ _ _ _ => bind (integerArgument _ _ _) fun _ _ _ _ =>
      ofRange _ _ _
  · exact bind (integerArgument _ _ _) fun _ _ _ _ => bind (integerArgument _ _ _) fun _ _ _ _ =>
      bind (integerArgument _ _ _) fun _ _ _ _ =>
        ite (fun _ => wrongArgument _ _ _ _) fun _ => ofRange _ _ _
  · exact fail _

theorem displayAll (room : Room) (vs : List Value) :
    I.Keeps w Anything (Run.displayAll room vs) :=
  bind (mapM (R := Anything) (fun _ _ _ _ _ => trivial) vs fun v _ _ _ => displayed room v)
    fun _ _ _ _ => pure trivial

theorem print (room : Room) (ending : String) (vs : List Value) :
    I.Keeps w I.Valid (Run.print room ending vs) :=
  bind (displayAll room vs) fun _ _ _ _ => bind (modify fun _ => .single .output) fun _ _ _ _ =>
    atom fun _ => trivial

theorem ofSymbol (v : Value) : I.Keeps w I.Valid (Texts.ofSymbol v) := by
  cases v with
  | sym s => exact atom fun _ => trivial
  | _ => exact wrongArgument _ _ _ _

section
variable [Host] [I.AllowsHost]

theorem columns (room : Room) (name : String) (index : Nat) {vs : List Value}
    (hvs : I.ValidAll w vs) :
    I.Keeps w (fun w cs => ∀ c ∈ cs, I.ValidAll w c) (Sequences.columns room name index vs) := by
  induction vs generalizing index w with
  | nil => exact pure (by simp)
  | cons v vs ih =>
    refine bind (items room name index hvs.head) fun c w₁ h₁ hc => ?_
    refine bind (ih _ (hvs.tail.mono h₁)) fun cs w₂ h₂ hcs => pure fun x hx => ?_
    rcases List.mem_cons.1 hx with rfl | hx
    · exact hc.mono h₂
    · exact hcs x hx

/-- Some elements of a sequence, as a list. -/
theorem listOfItems (room : Room) (name : String) (index : Nat) {v : Value} (hv : I.Valid w v)
    {f : List Value → List Value} (hf : ∀ vs, f vs ⊆ vs) :
    I.Keeps w I.Valid (Run.items room name index v >>= fun items => Run.list (f items)) :=
  bind (items room name index hv) fun vs _ _ hvs => list fun x hx => hvs x (hf vs hx)

theorem indexedItems (room : Room) {v : Value} (hv : I.Valid w v) :
    I.Keeps w I.ValidAll (Sequences.indexedItems room v) := by
  refine look fun hw => ?_
  split
  · rename_i xs hxs
    refine pure fun x hx => ?_
    unfold Sequences.indexed? at hxs
    split at hxs
    · cases hxs
      exact hw.vector hv x hx
    · cases hxs
      exact hw.tuple _ x hx
    · cases hxs
      obtain ⟨c, _, rfl⟩ := List.mem_map.1 hx
      exact fun _ => trivial
    · cases hxs
  · exact items room _ _ hv

theorem nth (room : Room) {u : Value} (hu : I.Valid w u) (v : Value) :
    I.Keeps w I.Valid (Sequences.nth room u v) := by
  refine bind (integerArgument _ _ v) fun n w₁ h₁ _ => ?_
  refine bind (indexedItems room (hu.mono h₁)) fun vs w₂ _ hvs => ?_
  split
  · rename_i x hx
    refine pure (hvs x ?_)
    split at hx
    · cases hx
    · exact List.mem_of_getElem? hx
  · split
    · exact fail _
    · exact crash _

theorem size (room : Room) (v : Value) : I.Keeps w Anything (Run.size room v) := by
  unfold Run.size
  split
  · exact look fun _ => ite (fun _ => hostSize room _) fun _ => look fun _ => crash _
  · exact lookOrStop fun _ _ _ => trivial

theorem count (room : Room) {v : Value} (hv : I.Valid w v) :
    I.Keeps w I.Valid (Sequences.count room v) := by
  unfold Sequences.count
  split
  · exact atom fun _ => trivial
  · exact bind (items room _ _ hv) fun _ _ _ _ => atom fun _ => trivial
  · refine look fun _ => ite (fun _ => ?_) fun _ => ?_
    · exact bind (size room _) fun _ _ _ _ => atom fun _ => trivial
    · exact bind (items room _ _ hv) fun _ _ _ _ => atom fun _ => trivial

theorem first (room : Room) {v : Value} (hv : I.Valid w v) :
    I.Keeps w I.Valid (Sequences.first room v) := by
  refine bind (cursor _ _ hv) fun c w₁ _ hc => bind (next room hc) fun found w₂ _ hfound => ?_
  cases found with
  | some p => exact pure (hfound p rfl).1
  | none => exact atom fun _ => trivial

/-- One of the elements of a sequence, or `nil`. -/
theorem itemOrNil (room : Room) (name : String) {v : Value} (hv : I.Valid w v)
    {f : List Value → Option Value} (hf : ∀ vs x, f vs = some x → x ∈ vs) :
    I.Keeps w I.Valid (do return (f (← Run.items room name 0 v)).getD .nil) := by
  refine bind (items room name 0 hv) fun vs w' _ hvs => pure ?_
  cases hx : f vs with
  | some x => exact hvs x (hf vs x hx)
  | none => exact valid_nil

theorem rest (room : Room) {v : Value} (hv : I.Valid w v) :
    I.Keeps w I.Valid (Sequences.rest room v) := by
  unfold Sequences.rest
  split
  · exact looked fun hw => hw.cdr hv
  · exact listOfItems room _ _ hv fun vs => (List.tail_sublist vs).subset

theorem reverse (room : Room) {v : Value} (hv : I.Valid w v) :
    I.Keeps w I.Valid (Sequences.reverse room v) := by
  unfold Sequences.reverse
  split
  · exact atom fun _ => trivial
  · exact bind (items room _ _ hv) fun _ _ _ hvs => vector hvs.reverse
  · exact listOfItems room _ _ hv fun vs _ hx => List.mem_reverse.1 hx

theorem append (room : Room) {args : List Value} (hargs : I.ValidAll w args) :
    I.Keeps w I.Valid (Sequences.append room args) := by
  have hrest : ∀ tail w', w.Grows w' → I.Valid w' tail → I.Keeps w' I.Valid (do
      let items ← Sequences.columns room "append" 0 args.dropLast
      Run.listWithTail items.flatten tail) := by
    intro tail w' hw htail
    have hinit := (hargs.sublist (List.dropLast_sublist args)).mono hw
    refine bind (columns room _ _ hinit) fun cs w'' hw' hcs => ?_
    refine listWithTail (fun x hx => ?_) (htail.mono hw')
    obtain ⟨c, hc, hxc⟩ := List.mem_flatten.1 hx
    exact hcs c hc x hxc
  unfold Sequences.append
  split
  · exact atom fun _ => trivial
  · rename_i v hlast
    have hv := hargs v (List.mem_of_getLast? hlast)
    dsimp only
    split
    · exact bind (pure hv) hrest
    · exact bind (pure hv) hrest
    · exact bind (items room _ _ hv) fun _ w₁ h₁ hvs => bind (list hvs) fun tail w₂ h₂ htail =>
        hrest tail w₂ (h₁.trans h₂) htail

theorem toListValue (room : Room) {v : Value} (hv : I.Valid w v) :
    I.Keeps w I.Valid (Sequences.toList room v) := by
  unfold Sequences.toList
  split
  · exact pure hv
  · exact pure hv
  · exact listOfItems room _ _ hv fun vs => List.Subset.refl vs

theorem toVector (room : Room) {v : Value} (hv : I.Valid w v) :
    I.Keeps w I.Valid (Sequences.toVector room v) := by
  unfold Sequences.toVector
  split
  · exact look fun hw => mapEntries (hw.entries hv) fun _ _ _ hvs => vector hvs
  · exact bind (items room _ _ hv) fun _ _ _ hvs => vector hvs

theorem join (room : Room) (u : Value) {v : Value} (hv : I.Valid w v) :
    I.Keeps w I.Valid (Texts.join room u v) :=
  bind (textArgument _ _ u) fun _ _ hw _ => bind (cursor _ _ (hv.mono hw)) fun _ _ _ hc =>
    bind (mapCursor (R := Anything) (fun _ _ _ _ _ => trivial) room
      (fun v _ _ _ => displayed room v) hc) fun _ _ _ _ => atom fun _ => trivial

end

/-! ## Sorting -/

section
variable {α : Type} {P : World → α → Prop} (hP : World.Persistent P) {less less' : α → α → Run Bool}
  (hless : ∀ a b w', w.Grows w' → P w' a → P w' b → I.Agree w' Anything (less a b) (less' a b))
include hP hless

theorem ascend {last : α} {run xs : List α} (hlast : P w last) (hrun : ∀ a ∈ run, P w a)
    (hxs : ∀ a ∈ xs, P w a) :
    I.Agree w (fun w r => (∀ a ∈ r.1, P w a) ∧ ∀ a ∈ r.2, P w a)
      (Sorting.ascend less last run xs) (Sorting.ascend less' last run xs) := by
  induction xs generalizing last run w with
  | nil => exact pure ⟨hrun, by simp⟩
  | cons x xs ih =>
    obtain ⟨hx, hrest⟩ := List.forall_mem_cons.1 hxs
    refine bind (hless x last w (.refl w) hx hlast) fun _ w₁ h₁ _ => ?_
    have hrun' : ∀ a ∈ run, P w₁ a := fun a ha => hP h₁ (hrun a ha)
    refine ite (fun _ => pure ⟨hrun', fun a ha => hP h₁ (hxs a ha)⟩) fun _ => ?_
    exact ih (fun a b w' hw' => hless a b w' (h₁.trans hw')) (hP h₁ hx)
      (List.forall_mem_cons.2 ⟨hP h₁ hx, hrun'⟩) fun a ha => hP h₁ (hrest a ha)

theorem descend {last : α} {run xs : List α} (hlast : P w last) (hrun : ∀ a ∈ run, P w a)
    (hxs : ∀ a ∈ xs, P w a) :
    I.Agree w (fun w r => (∀ a ∈ r.1, P w a) ∧ ∀ a ∈ r.2, P w a)
      (Sorting.descend less last run xs) (Sorting.descend less' last run xs) := by
  induction xs generalizing last run w with
  | nil => exact pure ⟨hrun, by simp⟩
  | cons x xs ih =>
    obtain ⟨hx, hrest⟩ := List.forall_mem_cons.1 hxs
    refine bind (hless x last w (.refl w) hx hlast) fun _ w₁ h₁ _ => ?_
    have hrun' : ∀ a ∈ run, P w₁ a := fun a ha => hP h₁ (hrun a ha)
    refine ite (fun _ => ?_) fun _ => pure ⟨hrun', fun a ha => hP h₁ (hxs a ha)⟩
    exact ih (fun a b w' hw' => hless a b w' (h₁.trans hw')) (hP h₁ hx)
      (List.forall_mem_cons.2 ⟨hP h₁ hx, hrun'⟩) fun a ha => hP h₁ (hrest a ha)

theorem leadingRun {xs : List α} (hxs : ∀ a ∈ xs, P w a) :
    I.Agree w (fun w r => (∀ a ∈ r.1, P w a) ∧ ∀ a ∈ r.2, P w a)
      (Sorting.leadingRun less xs) (Sorting.leadingRun less' xs) := by
  match xs, hxs with
  | [], hxs => exact pure ⟨hxs, hxs⟩
  | [x], hxs => exact pure ⟨hxs, by simp⟩
  | x :: y :: rest, hxs =>
    obtain ⟨hx, hy, hrest⟩ : P w x ∧ P w y ∧ ∀ a ∈ rest, P w a := by simpa using hxs
    refine bind (hless y x w (.refl w) hy hx) fun _ w₁ h₁ _ => ?_
    have hless₁ := fun a b w' (hw' : w₁.Grows w') => hless a b w' (h₁.trans hw')
    have hpair : ∀ a ∈ [y, x], P w₁ a := by
      simpa using And.intro (hP h₁ hy) (hP h₁ hx)
    have hrest₁ : ∀ a ∈ rest, P w₁ a := fun a ha => hP h₁ (hrest a ha)
    refine ite (fun _ => descend hP hless₁ (hP h₁ hy) hpair hrest₁) fun _ => ?_
    refine bind (ascend hP hless₁ (hP h₁ hy) hpair hrest₁) fun r w₂ _ hr =>
      pure ⟨fun a ha => ?_, hr.2⟩
    exact hr.1 a (List.mem_reverse.1 ha)

theorem insertWithin {x : α} (hx : P w x) (fuel : Nat) {xs : List α} (hxs : ∀ a ∈ xs, P w a) :
    I.Agree w (fun w r => ∀ a ∈ r, P w a)
      (Sorting.insertWithin less x fuel xs) (Sorting.insertWithin less' x fuel xs) := by
  induction fuel generalizing xs w with
  | zero => exact pure (by simpa using hx)
  | succ n ih =>
    unfold Sorting.insertWithin
    split
    · exact pure (by simpa using hx)
    · rename_i p after hdrop
      have hlater : ∀ a ∈ p :: after, P w a := fun a ha => hxs a (List.mem_of_mem_drop (hdrop ▸ ha))
      have hearlier : ∀ a ∈ xs.take (xs.length / 2), P w a :=
        fun a ha => hxs a (List.mem_of_mem_take ha)
      obtain ⟨hp, hafter⟩ := List.forall_mem_cons.1 hlater
      refine bind (hless x p w (.refl w) hx hp) fun _ w₁ h₁ _ => ?_
      have hless₁ := fun a b w' (hw' : w₁.Grows w') => hless a b w' (h₁.trans hw')
      refine ite (fun _ => ?_) fun _ => ?_
      · refine bind (ih hless₁ (hP h₁ hx) fun a ha => hP h₁ (hearlier a ha)) fun r w₂ h₂ hr => ?_
        refine pure fun a ha => ?_
        rcases List.mem_append.1 ha with ha | ha
        · exact hr a ha
        · exact hP (h₁.trans h₂) (hlater a ha)
      · refine bind (ih hless₁ (hP h₁ hx) fun a ha => hP h₁ (hafter a ha)) fun r w₂ h₂ hr => ?_
        refine pure fun a ha => ?_
        rcases List.mem_append.1 ha with ha | ha
        · exact hP (h₁.trans h₂) (hearlier a ha)
        · rcases List.mem_cons.1 ha with rfl | ha
          · exact hP (h₁.trans h₂) hp
          · exact hr a ha

theorem insertAll {sorted xs : List α} (hsorted : ∀ a ∈ sorted, P w a) (hxs : ∀ a ∈ xs, P w a) :
    I.Agree w (fun w r => ∀ a ∈ r, P w a)
      (Sorting.insertAll less sorted xs) (Sorting.insertAll less' sorted xs) := by
  induction xs generalizing sorted w with
  | nil => exact pure hsorted
  | cons x xs ih =>
    obtain ⟨hx, hrest⟩ := List.forall_mem_cons.1 hxs
    refine bind (insertWithin hP hless hx _ hsorted) fun s w₁ h₁ hs => ?_
    exact ih (fun a b w' hw' => hless a b w' (h₁.trans hw')) hs fun a ha => hP h₁ (hrest a ha)

/-- Sorting gives back what it is given. -/
theorem sortBy {xs : List α} (hxs : ∀ a ∈ xs, P w a) :
    I.Agree w (fun w r => ∀ a ∈ r, P w a) (Sorting.sort less xs) (Sorting.sort less' xs) :=
  bind (leadingRun hP hless hxs) fun _ _ h₁ hr =>
    insertAll hP (fun a b w' hw' => hless a b w' (h₁.trans hw')) hr.1 hr.2

end

/-! ## Functions that call back -/

theorem validAll_rows {cs : List (List Value)} (hcs : ∀ c ∈ cs, I.ValidAll w c) :
    ∀ row ∈ Sequences.rows cs, I.ValidAll w row := by
  induction cs with
  | nil => intro row hrow; cases hrow
  | cons c cs ih =>
    obtain ⟨hc, hcs⟩ := List.forall_mem_cons.1 hcs
    intro row hrow
    cases cs with
    | nil =>
      obtain ⟨v, hv, rfl⟩ := List.mem_map.1 hrow
      exact .cons (hc v hv) validAll_nil
    | cons c' cs =>
      obtain ⟨⟨v, rest⟩, hv, rfl⟩ := List.mem_map.1 hrow
      obtain ⟨hvc, hrest⟩ := List.of_mem_zip hv
      exact .cons (hc v hvc) (ih hcs rest hrest)

variable (I) in
/-- From `w` on, calls with values that may go into objects agree, and so may their results. -/
def Callers (w : World) (call call' : Caller) : Prop :=
  ∀ ⦃w' : World⦄ ⦃f : Value⦄ ⦃args : List Value⦄, w.Grows w' → I.Valid w' f → I.ValidAll w' args →
    I.Agree w' I.Valid (call f args) (call' f args)

section
variable {call call' : Caller} (hcall : Callers I w call call') (room : Room)
include hcall

theorem Callers.now {f : Value} {args : List Value} (hf : I.Valid w f) (hargs : I.ValidAll w args) :
    I.Agree w I.Valid (call f args) (call' f args) := hcall (.refl w) hf hargs

theorem Callers.mono {w' : World} (hw : w.Grows w') : Callers I w' call call' :=
  fun _ _ _ hw' => hcall (hw.trans hw')

theorem keep {test : Value} (htest : I.Valid w test) {kept vs : List Value}
    (hkept : I.ValidAll w kept) (hvs : I.ValidAll w vs) :
    I.Agree w I.ValidAll (Sequences.keep (fun x => call test [x]) kept vs)
      (Sequences.keep (fun x => call' test [x]) kept vs) := by
  induction vs generalizing kept w with
  | nil => exact pure hkept.reverse
  | cons v vs ih =>
    refine bind (hcall.now htest (.cons hvs.head validAll_nil)) fun _ w₁ h₁ _ => ?_
    refine ite (fun _ => ?_) fun _ => ?_
    · exact ih (hcall.mono h₁) (htest.mono h₁) ((ValidAll.cons hvs.head hkept).mono h₁)
        (hvs.tail.mono h₁)
    · exact ih (hcall.mono h₁) (htest.mono h₁) (hkept.mono h₁) (hvs.tail.mono h₁)

theorem foldLeft {f acc : Value} (hf : I.Valid w f) (hacc : I.Valid w acc) {vs : List Value}
    (hvs : I.ValidAll w vs) :
    I.Agree w I.Valid (Sequences.foldLeft (fun a x => call f [a, x]) acc vs)
      (Sequences.foldLeft (fun a x => call' f [a, x]) acc vs) := by
  induction vs generalizing acc w with
  | nil => exact pure hacc
  | cons v vs ih =>
    refine bind (hcall.now hf (.cons hacc (.cons hvs.head validAll_nil))) fun a w₁ h₁ ha => ?_
    exact ih (hcall.mono h₁) (hf.mono h₁) ha (hvs.tail.mono h₁)

theorem precedes {less u v : Value} (hless : I.Valid w less) (hu : I.Valid w u)
    (hv : I.Valid w v) :
    I.Agree w Anything (Sequences.precedes call less u v)
      (Sequences.precedes call' less u v) := by
  refine bind (hcall.now hless (.cons hu (.cons hv validAll_nil))) fun _ w₁ h₁ _ => ?_
  refine ite (fun _ => pure trivial) fun _ => bind (P := Anything) ?_ fun _ _ _ _ => pure trivial
  have hargs : I.ValidAll w₁ [v, u] := .cons (hv.mono h₁) (.cons (hu.mono h₁) validAll_nil)
  exact map _ (hcall h₁ (hless.mono h₁) hargs) fun _ _ _ _ => trivial

variable [Host] [I.AllowsHost]

theorem filter {u v : Value} (hu : I.Valid w u) (hv : I.Valid w v) :
    I.Agree w I.Valid (Sequences.filter room call u v) (Sequences.filter room call' u v) := by
  refine bind (functionArgument _ _ hu) fun test w₁ h₁ htest => ?_
  refine bind (items room _ _ (hv.mono h₁)) fun vs w₂ h₂ hvs => ?_
  exact bind (keep (hcall.mono (h₁.trans h₂)) (htest.mono h₂) validAll_nil hvs)
    fun _ _ _ hkept => list hkept

theorem mapRows {u v : Value} {vs : List Value} (hu : I.Valid w u)
    (hvs : I.ValidAll w (v :: vs)) :
    I.Agree w I.Valid (Sequences.map room call u v vs) (Sequences.map room call' u v vs) := by
  refine bind (functionArgument _ _ hu) fun f w₁ h₁ hf => ?_
  refine bind (columns room _ _ (hvs.mono h₁)) fun cs w₂ h₂ hcs => ?_
  refine bind (mapM persistent_valid _ fun row hrow w₃ h₃ => ?_) fun _ _ _ hrs => list hrs
  exact hcall ((h₁.trans h₂).trans h₃) (hf.mono (h₂.trans h₃))
    ((validAll_rows hcs row hrow).mono h₃)

theorem reduce {u v : Value} {start : Option Value} (hu : I.Valid w u) (hv : I.Valid w v)
    (hstart : ∀ x ∈ start, I.Valid w x) :
    I.Agree w I.Valid (Sequences.reduce room call u v start)
      (Sequences.reduce room call' u v start) := by
  refine bind (functionArgument _ _ hu) fun f w₁ h₁ hf => ?_
  refine bind (items room _ _ (hv.mono h₁)) fun vs w₂ h₂ hvs => ?_
  have hcall := hcall.mono (h₁.trans h₂)
  cases start with
  | some a => exact foldLeft hcall (hf.mono h₂) ((hstart a rfl).mono (h₁.trans h₂)) hvs
  | none =>
    cases vs with
    | nil => exact hcall.now (hf.mono h₂) validAll_nil
    | cons a rest => exact foldLeft hcall (hf.mono h₂) hvs.head hvs.tail

theorem sort {v : Value} {less : Option Value} (hv : I.Valid w v)
    (hless : ∀ x ∈ less, I.Valid w x) :
    I.Agree w I.Valid (Sequences.sort room call v less) (Sequences.sort room call' v less) := by
  refine bind (items room _ _ hv) fun vs w₁ h₁ hvs => ?_
  cases less with
  | none =>
    exact bind (sortBy persistent_valid (fun u v _ _ _ _ => lessThan u v) hvs)
      fun _ _ _ hr => list hr
  | some u =>
    refine bind (functionArgument _ _ ((hless u rfl).mono h₁)) fun f w₂ h₂ hf => ?_
    refine bind (sortBy persistent_valid (fun a b w₃ h₃ ha hb => ?_) (hvs.mono h₂))
      fun _ _ _ hr => list hr
    exact precedes (hcall.mono ((h₁.trans h₂).trans h₃)) (hf.mono h₃) ha hb

theorem applied {f v : Value} {vs : List Value} (hf : I.Valid w f) (hvs : I.ValidAll w (v :: vs)) :
    I.Agree w I.Valid (Builtin.applied room call f v vs) (Builtin.applied room call' f v vs) := by
  have hlast : I.Valid w ((v :: vs).getLastD .nil) := by
    rw [List.getLastD_cons]
    exact hvs _ (List.getLastD_mem_cons)
  have hinit := hvs.sublist (List.dropLast_sublist _)
  refine bind (functionArgument _ _ hf) fun f w₁ h₁ hf => ?_
  refine bind (cursor _ _ (hlast.mono h₁)) fun c w₂ h₂ hc => ?_
  refine bind (toList room hc) fun more w₃ h₃ hmore => ?_
  have h₃ := (h₁.trans h₂).trans h₃
  exact hcall h₃ (hf.mono (h₂.trans ‹_›)) ((hinit.mono h₃).append hmore)

/-- Every built-in function keeps the invariant if its calls do; one that gives an object new
contents has to be allowed to. -/
theorem builtin (b : Builtin) (hmutation : b.isMutator = true → I.mutation) {args : List Value}
    (hargs : I.ValidAll w args) :
    I.Agree w I.Valid (b.run room call args) (b.run room call' args) := by
  have hpredicate : ∀ name test, I.Keeps w I.Valid (Builtin.predicate name test args) :=
    fun name test => unary hargs name fun v _ => atom fun _ => trivial
  cases b with
  | add => exact sum args
  | sub => exact oneOrMore hargs _ fun v vs _ _ => difference v vs
  | mul => exact foldNumber _ _ _ _ args
  | div => exact oneOrMore hargs _ fun v vs _ _ => quotient v vs
  | mod => exact binary hargs _ fun u v _ _ => remainder u v
  | inc | dec => exact unary hargs _ fun v _ => bind (numberArgument _ _ v) fun _ _ _ _ => settle _
  | equals | notEquals =>
    exact oneOrMore hargs _ fun v vs _ _ => bind (allEqual room v vs) fun _ _ _ _ =>
      atom fun _ => trivial
  | less | lessEq | greater | greaterEq => exact oneOrMore hargs _ fun v vs _ _ => ordered _ v vs
  | isEven | isOdd =>
    exact unary hargs _ fun v _ => bind (isMultipleOfTwo _ v) fun _ _ _ _ => atom fun _ => trivial
  | isZero =>
    exact unary hargs _ fun v _ => bind (numberArgument _ _ v) fun _ _ _ _ => atom fun _ => trivial
  | not | isNil | isNumber | isString | isSymbol | isKeyword | isList | isFunction =>
    exact hpredicate _ _
  | cons => exact binary hargs _ fun u v hu hv => cons hu hv none
  | car => exact unary hargs _ fun v hv => car hv
  | cdr => exact unary hargs _ fun v hv => cdr hv
  | setCar => exact binary hargs _ fun u v hu hv => setFirst (hmutation rfl) hu hv
  | setCdr => exact binary hargs _ fun u v hu hv => setSecond (hmutation rfl) hu hv
  | list => exact list hargs
  | apply => exact twoOrMore hargs _ fun f v vs hf hv hvs => applied hcall room hf (.cons hv hvs)
  | funcall =>
    exact oneOrMore hargs _ fun f vs hf hvs => bind (functionArgument _ _ hf) fun _ _ hw hf =>
      hcall hw hf (hvs.mono hw)
  | println | print => exact print room _ args
  | filter => exact binary hargs _ fun u v hu hv => filter hcall room hu hv
  | map => exact twoOrMore hargs _ fun u v vs hu hv hvs => mapRows hcall room hu (.cons hv hvs)
  | nth => exact binary hargs _ fun u v hu _ => nth room hu v
  | count => exact unary hargs _ fun v hv => count room hv
  | first => exact unary hargs _ fun v hv => first room hv
  | second => exact unary hargs _ fun v hv => itemOrNil room _ hv fun _ _ => List.mem_of_getElem?
  | last => exact unary hargs _ fun v hv => itemOrNil room _ hv fun _ _ => List.mem_of_getLast?
  | rest => exact unary hargs _ fun v hv => rest room hv
  | reverse => exact unary hargs _ fun v hv => reverse room hv
  | append => exact append room hargs
  | reduce => exact binaryOrTernary hargs _ fun u v s hu hv hs => reduce hcall room hu hv hs
  | range => exact range args
  | sort => exact unaryOrBinary hargs _ fun v less hv hless => sort hcall room hv hless
  | toList => exact unary hargs _ fun v hv => toListValue room hv
  | toVector => exact unary hargs _ fun v hv => toVector room hv
  | lowerCase | upperCase | stringToSymbol =>
    exact unary hargs _ fun v _ => bind (textArgument _ _ v) fun _ _ _ _ => atom fun _ => trivial
  | str => exact bind (displayAll room args) fun _ _ _ _ => atom fun _ => trivial
  | stringJoin => exact binary hargs _ fun u v _ hv => join room u hv
  | symbolToString => exact unary hargs _ fun v _ => ofSymbol v
  | assoc => exact binary hargs _ fun u v _ hv => assoc room u hv
  | assocValue => exact binary hargs _ fun u v _ hv => assocValue room u hv
  | newMap =>
    exact bind (collect room 0 (fun _ he => nomatch he) hargs) fun _ _ _ hes => newMap hes
  | get => exact binaryOrTernary hargs _ fun v k d hv _ hd => get room hv hd
  | mapSet => exact ternary hargs _ fun v k x hv hk hx => set (hmutation rfl) room hv hk hx
  | keys =>
    refine unary hargs _ fun v hv => bind (entriesOf _ hv) fun es _ _ hes => list fun x hx => ?_
    obtain ⟨e, he, rfl⟩ := List.mem_map.1 hx
    exact (hes e he).1
  | vals =>
    refine unary hargs _ fun v hv => bind (entriesOf _ hv) fun es _ _ hes => list fun x hx => ?_
    obtain ⟨e, he, rfl⟩ := List.mem_map.1 hx
    exact (hes e he).2
  | entries => exact unary hargs _ fun v hv => entries hv

end

/-! ## Members -/

/-- What an own method belongs to. -/
def subject : OwnMethod → Value
  | .extendEnv r => .closure r
  | .names r => .formals r
  | .define env | .find env | .assign env | .lookup env | .isBound env | .update env |
    .frames env =>
    .env env

variable (I) in
/-- What a member name stands for refers to nothing that may not go into an object. -/
def ValidMember (w : World) : Member → Prop
  | .value v => I.Valid w v
  | .own m => I.Valid w (subject m)
  | .method owner _ => I.Valid w owner

theorem ValidMember.mono {w' : World} {m : Member} (h : ValidMember I w m) (hw : w.Grows w') :
    ValidMember I w' m := by
  cases m with
  | value v => exact Valid.mono h hw
  | own m => exact Valid.mono h hw
  | method owner name => exact Valid.mono h hw

/-- A value or nothing, as a member. -/
theorem valueMember {x : Run (Option Value)} (hx : I.Keeps w (fun w v => ∀ x ∈ v, I.Valid w x) x) :
    I.Keeps w (fun w m => ∀ x ∈ m, ValidMember I w x) (do return (← x).map .value) := by
  refine bind hx fun found w' _ hfound => pure fun m hm => ?_
  obtain ⟨v, hv, rfl⟩ := Option.map_eq_some_iff.1 hm
  exact hfound v hv

theorem cellAttribute {c : Cell} (hcar : I.Valid w c.car) (hcdr : I.Valid w c.cdr) (name : String) :
    I.Keeps w (fun w v => ∀ x ∈ v, I.Valid w x) (Run.cellAttribute c name) := by
  unfold Run.cellAttribute
  split
  · exact pure fun x hx => Option.mem_some.1 hx ▸ hcar
  · exact pure fun x hx => Option.mem_some.1 hx ▸ hcdr
  · split
    · exact pure fun x hx => Option.mem_some.1 hx ▸ fun _ => trivial
    · have hplace : ∀ l c : Nat, I.ValidAll w [.int l, .int c] := fun _ _ =>
        .cons (fun _ => trivial) (.cons (fun _ => trivial) validAll_nil)
      exact bind (tuple (hplace _ _)) fun _ _ _ hv => pure fun x hx => Option.mem_some.1 hx ▸ hv
  · exact pure fun x hx => nomatch hx

theorem valid_closureAttribute (hw : I.Good w) {r : ClosureRef} (hr : I.Valid w (.closure r))
    {name : String} {m : Member} (hm : Run.closureAttribute w r name = some m) :
    ValidMember I w m := by
  obtain ⟨hparams, hbody, henv⟩ := hw.closure hr
  unfold Run.closureAttribute at hm
  dsimp only at hm
  split at hm <;> cases hm
  · cases (w.closure r).name <;> exact fun _ => trivial
  · exact hparams
  · exact hbody
  · exact fun _ => trivial
  · exact henv
  · exact hr

theorem valid_environmentAttribute (hw : I.Good w) {env : FrameRef} (henv : I.Valid w (.env env))
    {name : String} {m : Member} (hm : Run.environmentAttribute w env name = some m) :
    ValidMember I w m := by
  unfold Run.environmentAttribute at hm
  split at hm <;> cases hm
  · exact henv
  · cases houter : (w.frame env).outer with
    | none => exact fun _ => trivial
    | some o => exact hw.outer henv houter
  · exact hw.rootAt henv
  all_goals exact henv

theorem symbolVector (names : List Symbol) : I.Keeps w I.Valid (Run.symbolVector names) := by
  refine vector fun x hx => ?_
  obtain ⟨s, _, rfl⟩ := List.mem_map.1 hx
  exact fun _ => trivial

theorem formalsAttribute (r : ClosureRef) (name : String) :
    I.Keeps w (fun w m => ∀ x ∈ m, ValidMember I w x) (Run.formalsAttribute r name) := by
  have hvector (names : List Symbol) :
      I.Keeps w (fun w m => ∀ x ∈ m, ValidMember I w x)
        (do return some (.value (← Run.symbolVector names))) :=
    bind (symbolVector names) fun _ _ _ hv => pure fun m hm => Option.mem_some.1 hm ▸ hv
  refine look fun _ => ?_
  dsimp only
  split
  · exact hvector _
  · exact hvector _
  · refine pure fun m hm => ?_
    cases hm
    cases (w.closure r).formals.rest <;> exact fun _ => trivial
  · exact pure fun m hm => Option.mem_some.1 hm ▸ fun _ => trivial
  · exact pure fun m hm => nomatch hm

/-- Attributes of symbols refer to nothing. -/
theorem valid_symbolAttribute {s : Symbol} {name : String} {v : Value}
    (h : Run.symbolAttribute? s name = some v) : I.Valid w v := by
  unfold Run.symbolAttribute? at h
  split at h <;> cases h <;> exact fun _ => trivial

section
variable {call call' : FrameRef → Caller} (hcall : CallersAgree I w call call') (room : Room)
include hcall

theorem foundBy {owner : Value} (howner : I.Valid w owner)
    (name : String) {code : HostCode Attribute} (hcode : I.mutation ∨ code.Additive) :
    I.Agree w (fun w m => ∀ x ∈ m, ValidMember I w x) (Run.foundBy room call owner name code)
      (Run.foundBy room call' owner name code) := by
  refine bind (hostRun room hcall (.cons howner validAll_nil) hcode)
    fun found w' hgrows hknown => ?_
  obtain ⟨found, known⟩ := found
  cases found with
  | absent => exact pure fun m hm => nomatch hm
  | value v => exact pure fun m hm => Option.mem_some.1 hm ▸ valid_handle hknown v
  | method => exact pure fun m hm => Option.mem_some.1 hm ▸ howner.mono hgrows

variable [Host] [I.AllowsHost]

theorem memberOf {receiver : Value} (hreceiver : I.Valid w receiver) (name : String) :
    I.Agree w (fun w m => ∀ x ∈ m, ValidMember I w x) (Run.memberOf room call receiver name)
      (Run.memberOf room call' receiver name) := by
  have hhost := (AllowsHost.allowed (I := I)).imp_right (·.find name ⟨0, receiver⟩)
  cases receiver with
  | sym s => exact valueMember (pure fun x hx => valid_symbolAttribute hx)
  | cell r =>
    exact look fun hw => valueMember (cellAttribute (hw.car hreceiver) (hw.cdr hreceiver) name)
  | closure r => exact looked fun hw m hm => valid_closureAttribute hw hreceiver hm
  | formals r => exact formalsAttribute r name
  | env r => exact looked fun hw m hm => valid_environmentAttribute hw hreceiver hm
  | _ => exact foundBy hcall room hreceiver name hhost

theorem attributeOf {receiver : Value} (hreceiver : I.Valid w receiver) (name : String) :
    I.Agree w (fun w m => ∀ x ∈ m, ValidMember I w x) (Run.attributeOf room call receiver name)
      (Run.attributeOf room call' receiver name) := by
  refine bind (memberOf hcall room hreceiver name) fun found w' hw hfound => ?_
  cases found with
  | some m => exact pure hfound
  | none =>
    exact ite (fun _ => pure fun m hm => nomatch hm) fun _ =>
      memberOf (hcall.mono hw) room (hreceiver.mono hw) _

theorem findMember {receiver : Value} (hreceiver : I.Valid w receiver) (name : String) :
    I.Agree w (fun w m => ∀ x ∈ m, ValidMember I w x) (Run.findMember room call receiver name)
      (Run.findMember room call' receiver name) := by
  unfold Run.findMember
  split
  · rename_i r
    refine valueMember (looked fun hw x hx => ?_)
    rcases Option.or_eq_some_iff.1 hx with hx | ⟨_, hx⟩
    · exact hw.findKey? hreceiver hx
    · exact hw.findKey? hreceiver hx
  · refine look fun _ => ite (fun _ => ?_) fun _ => attributeOf hcall room hreceiver name
    exact foundBy hcall room hreceiver name
      ((AllowsHost.allowed (I := I)).imp_right (·.resolve name _))
  · exact attributeOf hcall room hreceiver name

end

/-! ### Methods of environments and closures -/

theorem symbolNamed (room : Room) (v : Value) : I.Keeps w Anything (Run.symbolNamed room v) := by
  unfold Run.symbolNamed
  split
  · exact pure trivial
  · exact pure trivial
  · exact failAfter (shown room _) _

theorem checkHashable (key : Value) : I.Keeps w Anything (OwnMethod.checkKey key) :=
  look fun _ => ite (fun _ => pure trivial) fun _ => look fun _ => crash _

theorem valid_frameWith (hw : I.Good w) {env r : FrameRef}
    (henv : I.Valid w (.env env)) {key : Value} (hr : OwnMethod.frameWith? w env key = some r) :
    I.Valid w (.env r) :=
  hw.chainAt henv (List.mem_of_find?_eq_some hr)

theorem bindEntries (room : Room) {env : FrameRef} (henv : I.Valid w (.env env)) {r : MapRef}
    (hr : I.Valid w (.map r)) (size left : Nat) :
    I.Keeps w Anything (OwnMethod.bindEntries room env r size left) := by
  induction left generalizing w with
  | zero =>
    unfold OwnMethod.bindEntries
    exact look fun _ => ite (fun _ => crash _) fun _ => pure trivial
  | succ left ih =>
    unfold OwnMethod.bindEntries
    refine look fun hw => ite (fun _ => crash _) fun _ => ?_
    dsimp only
    split
    · exact pure trivial
    · rename_i k v hentry
      have hv := (hw.entries hr _ (List.mem_of_getElem? hentry)).2
      refine bind (symbolNamed room k) fun name w₁ h₁ _ => ?_
      refine bind (define (henv.mono h₁) name (hv.mono h₁)) fun _ w₂ h₂ _ => ?_
      exact ih (henv.mono (h₁.trans h₂)) (hr.mono (h₁.trans h₂))

theorem spreadArguments [Host] [I.AllowsHost] (room : Room) (p : ParameterList) {v : Value}
    (hv : I.Valid w v) :
    I.Keeps w I.ValidAll (OwnMethod.spreadArguments room p v) := by
  refine bind (size room v) fun count w₁ h₁ _ => ?_
  replace hv := hv.mono h₁
  refine ite (fun _ => pure fun x hx => ?_) fun _ => ?_
  · rw [List.eq_of_mem_replicate hx]
    exact valid_nil
  dsimp only
  split
  · exact items room _ _ hv
  · exact items room _ _ hv
  · exact items room _ _ hv
  · exact items room _ _ hv
  · rename_i r
    refine look (f := id) fun hw => ?_
    split
    · exact crash _
    · refine ite (fun _ => crash _) fun _ => pure fun x hx => ?_
      rcases List.mem_append.1 hx with hx | hx
      · obtain ⟨e, he, rfl⟩ := List.mem_map.1 (List.mem_of_mem_take hx)
        exact (hw.entries hv e he).1
      · obtain ⟨i, _, hi⟩ := List.mem_filterMap.1 hx
        exact hw.findKey? hv hi
  · refine look fun hw => ?_
    split
    · exact toList room (hw.cursor? hv ‹_›)
    · exact look fun _ => crash _

/-- Methods of environments and closures keep the invariant. -/
theorem ownMethod [Host] [I.AllowsHost] (room : Room) {m : OwnMethod} (hm : I.Valid w (subject m))
    {args : List Value} (hargs : I.ValidAll w args) : I.Keeps w I.Valid (m.run room args) := by
  have hnull {w' : World} : I.Keeps w' I.Valid (Pure.pure .null : Run Value) :=
    atom fun _ => trivial
  unfold OwnMethod.run
  split
  · rename_i r v
    refine look fun hw => bind (spreadArguments room _ hargs.head) fun vs w' hgrows hvs => ?_
    refine bind (bindArguments _ hvs ((hw.closure hm).2.2.mono hgrows) _) fun env _ _ henv => ?_
    exact pure henv
  · exact look fun _ => symbolVector _
  · rename_i env name v
    refine bind (symbolNamed room name) fun s w' hgrows _ => ?_
    exact bind (define (Valid.mono hm hgrows) s (hargs.tail.head.mono hgrows)) fun _ _ _ _ => hnull
  · rename_i env key
    refine bind (checkHashable key) fun _ w' hgrows _ => look fun hw => pure ?_
    cases hfound : OwnMethod.frameWith? w' env key with
    | none => exact fun _ => trivial
    | some r => exact valid_frameWith hw (Valid.mono hm hgrows) hfound
  · rename_i env key v
    refine bind (checkHashable key) fun _ w' hgrows _ => look fun hw => ?_
    have henv : I.Valid w' (.env env) := Valid.mono hm hgrows
    have htarget : I.Valid w' (.env ((OwnMethod.frameWith? w' env key).getD (w'.root env))) := by
      cases hfound : OwnMethod.frameWith? w' env key with
      | none => exact hw.rootAt henv
      | some r => exact valid_frameWith hw henv hfound
    refine bind (modify fun hw => .single (.setVariables htarget ?_)) fun _ _ _ _ => hnull
    exact validEntries_putKey _ (hw.vars htarget) (hargs.head.mono hgrows)
      (hargs.tail.head.mono hgrows)
  · rename_i env key
    refine bind (checkHashable key) fun _ w' hgrows _ => look fun hw => ?_
    split
    · rename_i v hv
      obtain ⟨r, hr, hv⟩ := Option.bind_eq_some_iff.1 hv
      have henv := valid_frameWith hw (Valid.mono hm hgrows) hr
      exact pure (hw.findKey? (r := .vars r) henv hv)
    · exact failAfter (plain room _) _
  · exact bind (symbolNamed room _) fun _ _ _ _ => look fun _ => atom fun _ => trivial
  · rename_i env v
    split
    · rename_i r
      refine look fun _ => ?_
      exact bind (bindEntries room hm hargs.head _ _) fun _ _ _ _ => hnull
    · exact look fun _ => crash _
  · rename_i env
    refine look fun hw => make (.single (.generator fun x hx => ?_)) fun _ => trivial
    obtain ⟨r, hr, rfl⟩ := List.mem_map.1 hx
    exact hw.chainAt hm hr
  · exact crash _

/-! ### Reaching a member -/

section
variable [Host] [I.AllowsHost] {call call' : FrameRef → Caller}
  (hcall : CallersAgree I w call call') (room : Room)
include hcall

theorem callMember {args : List Value} (hargs : I.ValidAll w args) {m : Member}
    (hm : ValidMember I w m) :
    I.Agree w I.Valid (Run.callMember room call args m) (Run.callMember room call' args m) := by
  cases m with
  | value v => exact pure hm
  | own m => exact ownMethod room hm hargs
  | method owner name => exact hostMethod room hcall hm name hargs

/-- Reaching a member keeps the invariant, and so does calling it if it is a method. -/
theorem member {receiver : Value} (hreceiver : I.Valid w receiver) (name : String)
    {args : List Value} (hargs : I.ValidAll w args) :
    I.Agree w I.Valid (Run.member room call receiver name args)
      (Run.member room call' receiver name args) := by
  refine ite (fun _ => fail _) fun _ => ite (fun _ => fail _) fun _ => ?_
  refine bind (typeName receiver) fun owner w₁ h₁ _ => ?_
  refine bind (orAccessFault true name _ (findMember (hcall.mono h₁) room (hreceiver.mono h₁) name))
    fun found w₂ h₂ hfound => ?_
  have hcall' := hcall.mono (h₁.trans h₂)
  have hargs' := hargs.mono (h₁.trans h₂)
  match found, hfound with
  | none, _ => exact fail _
  | some (.value v), hfound => exact ite (fun _ => pure (hfound _ rfl)) fun _ => fail _
  | some (.own m), hfound =>
    exact orAccessFault false name _ (callMember hcall' room hargs' (hfound _ rfl))
  | some (.method owner' name'), hfound =>
    exact orAccessFault false name _ (callMember hcall' room hargs' (hfound _ rfl))

end

end Invariant.Agree

end TemplateLisp
