import TemplateLisp.Proofs.ClosedProperties

/-!
# What holds of the parts of a call

Built-in functions and functions of the host are put together from the same things as evaluations,
and they may fail as the host does: whoever calls them makes an error of it. `Run.Permissive`
collects what a property must be closed under to hold of all of them, and `Run.Permissive.builtin`,
`Run.Permissive.hostFunction`, `Run.Permissive.findMember` and `Run.Permissive.callMember` say that
it does. A built-in function or host code that calls back has the property if the calls have it, and
the functions that write have it if writing does.
-/

namespace TemplateLisp

/-- A closed property that also holds of every failure and every look at the world, and that passes
to runs with a handler. -/
structure Run.Permissive [Host] (P : ∀ ⦃α : Type⦄, Run α → World → Prop) :
    Prop extends Run.Closed P where
  raise : ∀ {α : Type} (f : HostFault) (w : World), P (Run.crash f : Run α) w
  lookAny : ∀ {α : Type} (f : World → Except Stop α) (w : World), P (Run.lookOrStop f) w
  tryCatch : ∀ {α : Type} {x : Run α} {handler : Stop → Run α} {w : World}, P x w →
    (∀ s w, P (handler s) w) → P (MonadExcept.tryCatch x handler) w

namespace Run.Permissive

open Run.Closed (ite)

section
variable [Host] {P : ∀ ⦃α : Type⦄, Run α → World → Prop} (h : Run.Permissive P) (w : World)
include h

theorem throwAny {α : Type} (s : Stop) : P (throw s : Run α) w := by
  cases s with
  | crash f => exact h.raise f w
  | _ => exact h.stop _ w (by simp)

theorem placed {α : Type} {x : Run α} {w : World} (pos : Option Pos) (hx : P x w) :
    P (Run.placed pos x) w := by
  refine h.tryCatch hx fun s w => ?_
  split <;> exact h.throwAny w _

theorem orHostFault {α : Type} {x : Run α} {w : World} (name : String) (hx : P x w) :
    P (Run.orHostFault name x) w := by
  refine h.tryCatch hx fun s w => ?_
  split
  · exact h.fail w _
  · exact h.throwAny w _

theorem orAccessFault {α : Type} {x : Run α} {w : World} (mayRefuse : Bool) (name : String)
    (asFault : HostFault → AccessFault) (hx : P x w) :
    P (Run.orAccessFault mayRefuse name asFault x) w :=
  h.tryCatch hx fun _ w => h.throwAny w _

theorem number (n : Number) : P (Run.number n) w := by
  unfold Run.number
  split
  · exact h.make _ (fun _ => rfl) w
  · exact h.make _ (fun _ => rfl) w
  · exact h.pure _ w

theorem items (room : Room) (function : String) (index : Nat) (v : Value) :
    P (Run.items room function index v) w := by
  unfold Run.items
  split
  · exact h.seq (h.spine w _) fun _ w => ite (h.pure _ w) (h.wrongArgument w _ _ _ _)
  · refine h.seq (h.cursor w _ _ _) fun c w => h.tryCatch (h.toList w room c) fun s w => ?_
    split
    · exact ite (h.wrongArgument w _ _ _ _) (h.throwAny w _)
    · exact h.throwAny w _

/-! ### Host code -/

/-- Code of the host has the property if its calls have it. -/
theorem hostRun {α : Type} {call : FrameRef → Caller}
    (hcall : ∀ env f args w, P (call env f args) w) (room : Room) (code : HostCode α)
    (known : List Value) : P (code.run room call known) w := by
  induction code generalizing known w with
  | answer a => exact h.pure _ w
  | raise s => exact h.throwAny w s
  | ask request next ih =>
    simp only [HostCode.run]
    refine h.seq (h.make _ (fun w => w.serve_output room known request) w) fun outcome w => ?_
    split
    · exact ih _ w _
    · exact h.throwAny w _
    · exact ih _ w _
  | call env f args next ih =>
    have hback : ∀ v f args w, P (HostCode.callBack call v f args) w := by
      intro v f args w
      cases v
      case env r => exact hcall r f args w
      all_goals exact h.raise _ w
    simp only [HostCode.run]
    refine h.seq (h.tryCatch (h.map _ (hback _ _ _ w)) fun s w => ?_) fun outcome w => ?_
    · split
      · exact h.throwAny w _
      · exact h.pure _ w
    · split
      · exact ih _ w _
      · exact ih _ w _

theorem hostValue {call : FrameRef → Caller} (hcall : ∀ env f args w, P (call env f args) w)
    (room : Room) (known : List Value) (code : HostCode Handle) :
    P (code.value room call known) w :=
  h.seq (h.hostRun w hcall room code known) fun _ w => h.pure _ w

theorem size (room : Room) (v : Value) : P (Run.size room v) w := by
  unfold Run.size
  split
  · refine h.seq (h.look w _) fun owner w => ite ?_ (h.seq (h.look w _) fun _ w => h.raise _ w)
    exact h.seq (h.hostRun w (fun _ _ _ w => h.raise _ w) room _ _) fun _ w => h.pure _ w
  · exact h.lookAny _ w

/-! ### Arguments -/

theorem numberArgument (name : String) (index : Nat) (v : Value) :
    P (Argument.number name index v) w := by
  unfold Argument.number
  split
  · exact h.pure _ w
  · exact h.wrongArgument w _ _ _ _

theorem integerArgument (name : String) (index : Nat) (v : Value) :
    P (Argument.integer name index v) w := by
  unfold Argument.integer
  split
  · exact h.pure _ w
  · exact h.wrongArgument w _ _ _ _

theorem textArgument (name : String) (index : Nat) (v : Value) :
    P (Argument.text name index v) w := by
  unfold Argument.text
  split
  · exact h.pure _ w
  · exact h.wrongArgument w _ _ _ _

theorem functionArgument (name : String) (index : Nat) (v : Value) :
    P (Argument.function name index v) w := ite (h.pure _ w) (h.wrongArgument w _ _ _ _)

theorem unary (name : String) {f : Value → Run Value} (hf : ∀ v w, P (f v) w) (args : List Value) :
    P (Argument.unary name f args) w := by
  unfold Argument.unary
  split
  · exact hf _ w
  · exact h.fail w _

theorem binary (name : String) {f : Value → Value → Run Value} (hf : ∀ u v w, P (f u v) w)
    (args : List Value) : P (Argument.binary name f args) w := by
  unfold Argument.binary
  split
  · exact hf _ _ w
  · exact h.fail w _

theorem ternary (name : String) {f : Value → Value → Value → Run Value}
    (hf : ∀ t u v w, P (f t u v) w) (args : List Value) : P (Argument.ternary name f args) w := by
  unfold Argument.ternary
  split
  · exact hf _ _ _ w
  · exact h.fail w _

theorem unaryOrBinary (name : String) {f : Value → Option Value → Run Value}
    (hf : ∀ u v w, P (f u v) w) (args : List Value) : P (Argument.unaryOrBinary name f args) w := by
  unfold Argument.unaryOrBinary
  split
  · exact hf _ _ w
  · exact hf _ _ w
  · exact h.fail w _

theorem binaryOrTernary (name : String) {f : Value → Value → Option Value → Run Value}
    (hf : ∀ t u v w, P (f t u v) w) (args : List Value) :
    P (Argument.binaryOrTernary name f args) w := by
  unfold Argument.binaryOrTernary
  split
  · exact hf _ _ _ w
  · exact hf _ _ _ w
  · exact h.fail w _

theorem oneOrMore (name : String) {f : Value → List Value → Run Value}
    (hf : ∀ v vs w, P (f v vs) w) (args : List Value) : P (Argument.oneOrMore name f args) w := by
  unfold Argument.oneOrMore
  split
  · exact hf _ _ w
  · exact h.fail w _

theorem twoOrMore (name : String) {f : Value → Value → List Value → Run Value}
    (hf : ∀ u v vs w, P (f u v vs) w) (args : List Value) :
    P (Argument.twoOrMore name f args) w := by
  unfold Argument.twoOrMore
  split
  · exact hf _ _ _ w
  · exact h.fail w _

/-! ### Numbers and comparison -/

theorem settle (r : Except NumberFault Number) : P (Arithmetic.settle r) w := by
  cases r with
  | ok n => exact h.number w n
  | error f => exact h.raise _ w

theorem fold (name : String) (op : Number → Number → Except NumberFault Number) (index : Nat)
    (acc : Number) (vs : List Value) : P (Arithmetic.fold name op index acc vs) w := by
  induction vs generalizing index acc w with
  | nil => exact h.pure _ w
  | cons v vs ih =>
    refine h.seq (h.numberArgument w name index v) fun x w => ?_
    split
    · exact ih w _ _
    · exact h.seq (h.typeName w _) fun _ w => h.wrongArgument w _ _ _ _
    · exact h.fail w _
    · exact h.raise _ w

theorem sum (args : List Value) : P (Arithmetic.sum args) w := by
  unfold Arithmetic.sum
  split
  · exact h.pure _ w
  · exact h.seq (h.numberArgument w _ _ _) fun _ w => h.pure _ w
  · exact h.seq (h.numberArgument w _ _ _) fun _ w => h.seq (h.fold w _ _ _ _ _) fun _ w =>
      h.number w _

theorem difference (v : Value) (vs : List Value) : P (Arithmetic.difference v vs) w :=
  h.seq (h.numberArgument w _ _ v) fun _ w => ite (h.settle w _)
    (h.seq (h.fold w _ _ _ _ _) fun _ w => h.number w _)

theorem quotient (v : Value) (vs : List Value) : P (Arithmetic.quotient v vs) w := by
  refine h.seq (h.numberArgument w _ _ v) fun _ w => ite ?_ ?_
  · split
    · exact h.fail w _
    · exact h.settle w _
  · exact h.seq (h.fold w _ _ _ _ _) fun _ w => h.number w _

theorem remainder (u v : Value) : P (Arithmetic.remainder u v) w := by
  refine h.seq (h.numberArgument w _ _ u) fun _ w => h.seq (h.numberArgument w _ _ v) fun _ w => ?_
  split
  · exact h.fail w _
  · exact h.seq (h.look w _) fun _ w => h.seq (h.look w _) fun _ w => h.raise _ w
  · exact h.settle w _

theorem isMultipleOfTwo (name : String) (v : Value) : P (Arithmetic.isMultipleOfTwo name v) w := by
  refine h.seq (h.numberArgument w name _ v) fun _ w => ?_
  split
  · exact h.pure _ w
  · exact h.raise _ w

theorem allEqual (room : Room) (first : Value) (vs : List Value) :
    P (Comparison.allEqual room first vs) w := by
  induction vs generalizing w with
  | nil => exact h.pure _ w
  | cons v vs ih => exact h.seq (h.lookAny _ w) fun _ w => ite (ih w) (h.pure _ w)

theorem checkComparable (name : String) (index : Nat) (vs : List Value) :
    P (Comparison.checkComparable name index vs) w := by
  induction vs generalizing index with
  | nil => exact h.pure _ w
  | cons v vs ih =>
    cases v with
    | num n => exact ih _
    | str s => exact ih _
    | _ => exact h.wrongArgument w _ _ _ _

theorem inOrder (o : Comparison.Order) (index : Nat) (u : Value) (vs : List Value) :
    P (Comparison.inOrder o index u vs) w := by
  induction vs generalizing index u w with
  | nil => exact h.pure _ w
  | cons v vs ih =>
    have hrest : ∀ (holds : Bool) w,
        P (if holds = true then Comparison.inOrder o (index + 1) v vs else pure false) w :=
      fun _ w => ite (ih w _ v) (h.pure _ w)
    unfold Comparison.inOrder
    dsimp only
    split
    · split
      · exact h.seq (h.pure _ w) hrest
      · exact h.seq (h.raise _ w) hrest
    · exact h.seq (h.pure _ w) hrest
    · exact h.seq (h.typeName w _) fun _ w => h.seq (h.wrongArgument w _ _ _ _) hrest

theorem ordered (o : Comparison.Order) (v : Value) (vs : List Value) :
    P (Comparison.ordered o v vs) w :=
  h.seq (h.checkComparable w _ _ _) fun _ w => h.seq (h.inOrder w o _ v vs) fun _ w => h.pure _ w

/-! ### Maps and pairs -/

theorem findEntryAt (room : Room) (name : String) (key : Value) (fuel index : Nat) (c : Cursor) :
    P (Maps.findEntryAt room name key fuel index c) w := by
  induction fuel generalizing index c w with
  | zero => exact h.stop _ w (by simp)
  | succ n ih =>
    refine h.seq (h.next w room c) fun next w => ?_
    split
    · exact h.pure _ w
    · exact ih w _ _
    · exact h.seq (h.lookAny _ w) fun _ w => ite (h.pure _ w) (ih w _ _)
    · exact h.wrongArgument w _ _ _ _

theorem findEntry (room : Room) (name : String) (key alist : Value) :
    P (Maps.findEntry room name key alist) w := by
  cases alist with
  | nil => exact h.pure _ w
  | cell r => exact h.seq (h.look w _) fun _ w => h.findEntryAt w room name key _ _ _
  | _ => exact h.wrongArgument w _ _ _ _

theorem entryValue (r : CellRef) : P (Maps.entryValue r) w := by
  refine h.seq (h.look w _) fun cdr w => ?_
  cases cdr with
  | cell s => exact h.look w _
  | _ => exact h.pure _ w

theorem assoc (room : Room) (key alist : Value) : P (Maps.assoc room key alist) w := by
  refine h.seq (h.findEntry w room _ key alist) fun found w => ?_
  cases found with
  | some r => exact h.pure _ w
  | none => exact h.pure _ w

theorem checkKey (name : String) (index : Nat) (key : Value) : P (Maps.checkKey name index key) w :=
  h.seq (h.look w _) fun _ w => ite (h.pure _ w) (h.wrongArgument w _ _ _ _)

theorem assocValue (room : Room) (key v : Value) : P (Maps.assocValue room key v) w := by
  unfold Maps.assocValue
  split
  · exact h.seq (h.checkKey w _ _ key) fun _ w => h.seq (h.lookAny _ w) fun _ w => h.pure _ w
  · refine h.seq (h.findEntry w room _ key _) fun found w => ?_
    cases found with
    | some r => exact h.entryValue w r
    | none => exact h.pure _ w

theorem get (room : Room) (v key : Value) (default? : Option Value) :
    P (Maps.get room v key default?) w := by
  unfold Maps.get
  dsimp only
  split
  · exact h.pure _ w
  · exact h.seq (h.checkKey w _ _ key) fun _ w => h.seq (h.lookAny _ w) fun _ w => h.pure _ w
  · refine h.seq (h.findEntry w room _ key _) fun found w => ?_
    cases found with
    | some r => exact h.entryValue w r
    | none => exact h.pure _ w
  · exact h.wrongArgument w _ _ _ _

theorem set (room : Room) (v key value : Value) : P (Maps.set room v key value) w := by
  cases v with
  | map r =>
    exact h.seq (h.checkKey w _ _ key) fun _ w => h.seq (h.lookAny _ w) fun _ w =>
      h.seq (h.modify w _ fun w => w.setEntries_output _ _) fun _ w => h.pure _ w
  | _ => exact h.wrongArgument w _ _ _ _

theorem pairItems (room : Room) (index : Nat) (v : Value) : P (Maps.pairItems room index v) w := by
  unfold Maps.pairItems
  dsimp only
  split
  all_goals
    refine h.seq ?_ fun items w => ?_
    rotate_left
    · split
      · exact h.pure _ w
      · exact h.wrongArgument w _ _ _ _
  · exact h.properItems w room _
  · exact h.look w _
  · exact h.look w _
  · exact h.pure _ w

theorem collect (room : Room) (index : Nat) (entries : List (Value × Value)) (vs : List Value) :
    P (Maps.collect room index entries vs) w := by
  induction vs generalizing index entries w with
  | nil => exact h.pure _ w
  | cons v vs ih =>
    exact h.seq (h.pairItems w room index v) fun p w => h.seq (h.checkKey w _ _ p.1) fun _ w =>
      h.seq (h.look w _) fun _ w => ih w _ _

theorem entriesOf (name : String) (v : Value) : P (Maps.entriesOf name v) w := by
  cases v with
  | map r => exact h.look w _
  | _ => exact h.wrongArgument w _ _ _ _

theorem entries (v : Value) : P (Maps.entries v) w :=
  h.seq (h.entriesOf w _ v) fun es w => h.seq (h.mapM w (fun _ w => h.list w _) es) fun _ w =>
    h.list w _

theorem car (v : Value) : P (Pair.first v) w := by
  cases v with
  | nil => exact h.pure _ w
  | cell r => exact h.look w _
  | _ => exact h.wrongArgument w _ _ _ _

theorem cdr (v : Value) : P (Pair.second v) w := by
  cases v with
  | nil => exact h.pure _ w
  | cell r => exact h.look w _
  | _ => exact h.wrongArgument w _ _ _ _

theorem setFirst (u v : Value) : P (Pair.setFirst u v) w := by
  cases u with
  | cell r => exact h.seq (h.modify w _ fun _ => rfl) fun _ w => h.pure _ w
  | _ => exact h.wrongArgument w _ _ _ _

theorem setSecond (u v : Value) : P (Pair.setSecond u v) w := by
  cases u with
  | cell r => exact h.seq (h.modify w _ fun _ => rfl) fun _ w => h.pure _ w
  | _ => exact h.wrongArgument w _ _ _ _

/-! ### Sequences and texts -/

theorem columns (room : Room) (name : String) (index : Nat) (vs : List Value) :
    P (Sequences.columns room name index vs) w := by
  induction vs generalizing index w with
  | nil => exact h.pure _ w
  | cons v vs ih =>
    exact h.seq (h.items w room name index v) fun _ w => h.seq (ih w _) fun _ w => h.pure _ w

theorem listOfItems (room : Room) (name : String) (index : Nat) (v : Value)
    (f : List Value → List Value) :
    P (Run.items room name index v >>= fun items => Run.list (f items)) w :=
  h.seq (h.items w room name index v) fun _ w => h.list w _

theorem lessThan (u v : Value) : P (Sequences.lessThan u v) w := by
  unfold Sequences.lessThan
  split
  · split
    · exact h.pure _ w
    · exact h.raise _ w
  · exact h.pure _ w
  · exact h.seq (h.typeName w _) fun _ w => h.failAfter (h.typeName w _) _

theorem nth (room : Room) (u v : Value) : P (Sequences.nth room u v) w := by
  have hitems : ∀ w, P (Sequences.indexedItems room u) w := by
    refine fun w => h.seq (h.look w _) fun found w => ?_
    cases found with
    | some items => exact h.pure _ w
    | none => exact h.items w room _ _ u
  refine h.seq (h.integerArgument w _ _ v) fun _ w => h.seq (hitems w) fun items w => ?_
  split
  · exact h.pure _ w
  · split
    · exact h.fail w _
    · exact h.raise _ w

theorem count (room : Room) (v : Value) : P (Sequences.count room v) w := by
  unfold Sequences.count
  split
  · exact h.pure _ w
  · exact h.seq (h.items w room _ _ _) fun _ w => h.pure _ w
  · exact h.seq (h.look w _) fun _ w => ite (h.seq (h.size w room _) fun _ w => h.pure _ w)
      (h.seq (h.items w room _ _ _) fun _ w => h.pure _ w)

theorem first (room : Room) (v : Value) : P (Sequences.first room v) w := by
  refine h.seq (h.cursor w _ _ v) fun c w => h.seq (h.next w room c) fun next w => ?_
  cases next with
  | some p => exact h.pure _ w
  | none => exact h.pure _ w

theorem rest (room : Room) (v : Value) : P (Sequences.rest room v) w := by
  unfold Sequences.rest
  split
  · exact h.look w _
  · exact h.listOfItems w room _ _ _ _

theorem reverse (room : Room) (v : Value) : P (Sequences.reverse room v) w := by
  unfold Sequences.reverse
  split
  · exact h.pure _ w
  · exact h.seq (h.items w room _ _ _) fun _ w => h.vector w _
  · exact h.listOfItems w room _ _ _ _

theorem append (room : Room) (args : List Value) : P (Sequences.append room args) w := by
  have hrest : ∀ tail w, P (do
      let items ← Sequences.columns room "append" 0 args.dropLast
      Run.listWithTail items.flatten tail) w :=
    fun tail w => h.seq (h.columns w room _ _ _) fun _ w => h.listWithTail w _ _
  unfold Sequences.append
  split
  · exact h.pure _ w
  · dsimp only
    split
    · exact h.seq (h.pure _ w) hrest
    · exact h.seq (h.pure _ w) hrest
    · exact h.seq (h.items w room _ _ _) fun _ w => h.seq (h.list w _) hrest

theorem ofRange (start stop step : Int) : P (Sequences.ofRange start stop step) w :=
  ite (h.raise _ w) (h.list w _)

theorem range (args : List Value) : P (Sequences.range args) w := by
  unfold Sequences.range
  split
  · exact h.seq (h.integerArgument w _ _ _) fun _ w => h.ofRange w _ _ _
  · exact h.seq (h.integerArgument w _ _ _) fun _ w => h.seq (h.integerArgument w _ _ _) fun _ w =>
      h.ofRange w _ _ _
  · exact h.seq (h.integerArgument w _ _ _) fun _ w => h.seq (h.integerArgument w _ _ _) fun _ w =>
      h.seq (h.integerArgument w _ _ _) fun _ w =>
        ite (h.wrongArgument w _ _ _ _) (h.ofRange w _ _ _)
  · exact h.fail w _

theorem toListValue (room : Room) (v : Value) : P (Sequences.toList room v) w := by
  unfold Sequences.toList
  split
  · exact h.pure _ w
  · exact h.pure _ w
  · exact h.listOfItems w room _ _ _ id

theorem toVector (room : Room) (v : Value) : P (Sequences.toVector room v) w := by
  unfold Sequences.toVector
  split
  · exact h.seq (h.look w _) fun es w => h.seq (h.mapM w (fun _ w => h.vector w _) es) fun _ w =>
      h.vector w _
  · exact h.seq (h.items w room _ _ _) fun _ w => h.vector w _

theorem displayAll (room : Room) (vs : List Value) : P (Run.displayAll room vs) w :=
  h.seq (h.mapM w (fun v w => h.displayed w room v) vs) fun _ w => h.pure _ w

theorem join (room : Room) (u v : Value) : P (Texts.join room u v) w :=
  h.seq (h.textArgument w _ _ u) fun _ w => h.seq (h.cursor w _ _ v) fun c w =>
    h.seq (h.mapCursor w room (fun v w => h.displayed w room v) c) fun _ w => h.pure _ w

theorem ofSymbol (v : Value) : P (Texts.ofSymbol v) w := by
  cases v with
  | sym s => exact h.pure _ w
  | _ => exact h.wrongArgument w _ _ _ _

/-! ### Sorting -/

section
variable {α : Type} {less : α → α → Run Bool} (hless : ∀ a b w, P (less a b) w)
include hless

theorem ascend (last : α) (run xs : List α) : P (Sorting.ascend less last run xs) w := by
  induction xs generalizing last run w with
  | nil => exact h.pure _ w
  | cons x xs ih => exact h.seq (hless x last w) fun _ w => ite (h.pure _ w) (ih w _ _)

theorem descend (last : α) (run xs : List α) : P (Sorting.descend less last run xs) w := by
  induction xs generalizing last run w with
  | nil => exact h.pure _ w
  | cons x xs ih => exact h.seq (hless x last w) fun _ w => ite (ih w _ _) (h.pure _ w)

theorem leadingRun (xs : List α) : P (Sorting.leadingRun less xs) w := by
  match xs with
  | [] => exact h.pure _ w
  | [_] => exact h.pure _ w
  | x :: y :: rest =>
    exact h.seq (hless y x w) fun _ w => ite (h.descend w hless y _ rest)
      (h.seq (h.ascend w hless y _ rest) fun _ w => h.pure _ w)

theorem insertWithin (x : α) (fuel : Nat) (xs : List α) :
    P (Sorting.insertWithin less x fuel xs) w := by
  induction fuel generalizing xs w with
  | zero => exact h.pure _ w
  | succ n ih =>
    unfold Sorting.insertWithin
    split
    · exact h.pure _ w
    · exact h.seq (hless x _ w) fun _ w => ite (h.seq (ih w _) fun _ w => h.pure _ w)
        (h.seq (ih w _) fun _ w => h.pure _ w)

theorem insertAll (sorted xs : List α) : P (Sorting.insertAll less sorted xs) w := by
  induction xs generalizing sorted w with
  | nil => exact h.pure _ w
  | cons x xs ih => exact h.seq (h.insertWithin w hless x _ sorted) fun s w => ih w s

theorem sortBy (xs : List α) : P (Sorting.sort less xs) w :=
  h.seq (h.leadingRun w hless xs) fun p w => h.insertAll w hless p.1 p.2

end

/-! ### Functions that call back -/

theorem keep {test : Value → Run Value} (htest : ∀ v w, P (test v) w) (kept vs : List Value) :
    P (Sequences.keep test kept vs) w := by
  induction vs generalizing kept w with
  | nil => exact h.pure _ w
  | cons v vs ih => exact h.seq (htest v w) fun _ w => ite (ih w _) (ih w _)

theorem foldLeft {f : Value → Value → Run Value} (hf : ∀ a v w, P (f a v) w) (acc : Value)
    (vs : List Value) : P (Sequences.foldLeft f acc vs) w := by
  induction vs generalizing acc w with
  | nil => exact h.pure _ w
  | cons v vs ih => exact h.seq (hf acc v w) fun a w => ih w a

section
variable {call : Caller} (hcall : ∀ f args w, P (call f args) w)
include hcall

theorem filter (room : Room) (u v : Value) : P (Sequences.filter room call u v) w :=
  h.seq (h.functionArgument w _ _ u) fun test w => h.seq (h.items w room _ _ v) fun items w =>
    h.seq (h.keep w (fun x => hcall test [x]) [] items) fun _ w => h.list w _

theorem mapRows (room : Room) (u v : Value) (vs : List Value) :
    P (Sequences.map room call u v vs) w :=
  h.seq (h.functionArgument w _ _ u) fun f w => h.seq (h.columns w room _ _ _) fun _ w =>
    h.seq (h.mapM w (hcall f) _) fun _ w => h.list w _

theorem reduce (room : Room) (u v : Value) (start : Option Value) :
    P (Sequences.reduce room call u v start) w := by
  refine h.seq (h.functionArgument w _ _ u) fun f w =>
    h.seq (h.items w room _ _ v) fun items w => ?_
  have hstep : ∀ a x w, P (call f [a, x]) w := fun a x => hcall f [a, x]
  cases start with
  | some a => exact h.foldLeft w hstep a items
  | none =>
    cases items with
    | nil => exact hcall f [] w
    | cons a rest => exact h.foldLeft w hstep a rest

theorem precedes (less u v : Value) : P (Sequences.precedes call less u v) w :=
  h.seq (hcall less [u, v] w) fun _ w => ite (h.pure _ w)
    (h.seq (h.map _ (hcall less [v, u] w)) fun _ w => h.pure _ w)

theorem sort (room : Room) (v : Value) (less : Option Value) :
    P (Sequences.sort room call v less) w := by
  refine h.seq (h.items w room _ _ v) fun items w => ?_
  cases less with
  | none => exact h.seq (h.sortBy w (fun u v w => h.lessThan w u v) items) fun _ w => h.list w _
  | some u =>
    exact h.seq (h.functionArgument w _ _ u) fun f w =>
      h.seq (h.sortBy w (fun u v w => h.precedes w hcall f u v) items) fun _ w => h.list w _

theorem applied (room : Room) (f v : Value) (vs : List Value) :
    P (Builtin.applied room call f v vs) w :=
  h.seq (h.functionArgument w _ _ f) fun f w => h.seq (h.cursor w _ _ _) fun c w =>
    h.seq (h.toList w room c) fun _ w => hcall f _ w

/-- Every built-in function has the property if its calls and what is written have it. -/
theorem builtin (room : Room) (hprint : ∀ ending args w, P (Run.print room ending args) w)
    (b : Builtin) (args : List Value) : P (b.run room call args) w := by
  have hpredicate : ∀ name test args w, P (Builtin.predicate name test args) w :=
    fun name test args w => h.unary w name (fun v w => h.pure _ w) args
  cases b with
  | add => exact h.sum w args
  | sub => exact h.oneOrMore w _ (fun v vs w => h.difference w v vs) args
  | mul => exact h.seq (h.fold w _ _ _ _ args) fun _ w => h.number w _
  | div => exact h.oneOrMore w _ (fun v vs w => h.quotient w v vs) args
  | mod => exact h.binary w _ (fun u v w => h.remainder w u v) args
  | inc | dec =>
    exact h.unary w _ (fun v w => h.seq (h.numberArgument w _ _ v) fun _ w => h.settle w _) args
  | equals | notEquals =>
    exact h.oneOrMore w _ (fun v vs w => h.seq (h.allEqual w room v vs) fun _ w => h.pure _ w) args
  | less | lessEq | greater | greaterEq =>
    exact h.oneOrMore w _ (fun v vs w => h.ordered w _ v vs) args
  | isEven | isOdd =>
    exact h.unary w _ (fun v w => h.seq (h.isMultipleOfTwo w _ v) fun _ w => h.pure _ w) args
  | isZero =>
    exact h.unary w _ (fun v w => h.seq (h.numberArgument w _ _ v) fun _ w => h.pure _ w) args
  | not | isNil | isNumber | isString | isSymbol | isKeyword | isList | isFunction =>
    exact hpredicate _ _ args w
  | cons => exact h.binary w _ (fun u v w => h.make _ (fun _ => rfl) w) args
  | car => exact h.unary w _ (fun v w => h.car w v) args
  | cdr => exact h.unary w _ (fun v w => h.cdr w v) args
  | setCar => exact h.binary w _ (fun u v w => h.setFirst w u v) args
  | setCdr => exact h.binary w _ (fun u v w => h.setSecond w u v) args
  | list => exact h.list w args
  | apply => exact h.twoOrMore w _ (fun u v vs w => h.applied w hcall room u v vs) args
  | funcall =>
    exact h.oneOrMore w _ (fun f args w => h.seq (h.functionArgument w _ _ f) fun f w =>
      hcall f args w) args
  | println | print => exact hprint _ args w
  | filter => exact h.binary w _ (fun u v w => h.filter w hcall room u v) args
  | map => exact h.twoOrMore w _ (fun u v vs w => h.mapRows w hcall room u v vs) args
  | nth => exact h.binary w _ (fun u v w => h.nth w room u v) args
  | count => exact h.unary w _ (fun v w => h.count w room v) args
  | first => exact h.unary w _ (fun v w => h.first w room v) args
  | second | last =>
    exact h.unary w _ (fun v w => h.seq (h.items w room _ _ v) fun _ w => h.pure _ w) args
  | rest => exact h.unary w _ (fun v w => h.rest w room v) args
  | reverse => exact h.unary w _ (fun v w => h.reverse w room v) args
  | append => exact h.append w room args
  | reduce => exact h.binaryOrTernary w _ (fun u v s w => h.reduce w hcall room u v s) args
  | range => exact h.range w args
  | sort => exact h.unaryOrBinary w _ (fun v less w => h.sort w hcall room v less) args
  | toList => exact h.unary w _ (fun v w => h.toListValue w room v) args
  | toVector => exact h.unary w _ (fun v w => h.toVector w room v) args
  | lowerCase | upperCase | stringToSymbol =>
    exact h.unary w _ (fun v w => h.seq (h.textArgument w _ _ v) fun _ w => h.pure _ w) args
  | str => exact h.seq (h.displayAll w room args) fun _ w => h.pure _ w
  | stringJoin => exact h.binary w _ (fun u v w => h.join w room u v) args
  | symbolToString => exact h.unary w _ (fun v w => h.ofSymbol w v) args
  | assoc => exact h.binary w _ (fun u v w => h.assoc w room u v) args
  | assocValue => exact h.binary w _ (fun u v w => h.assocValue w room u v) args
  | newMap => exact h.seq (h.collect w room _ _ args) fun _ w => h.newMap w _
  | get => exact h.binaryOrTernary w _ (fun v k d w => h.get w room v k d) args
  | mapSet => exact h.ternary w _ (fun v k x w => h.set w room v k x) args
  | keys | vals =>
    exact h.unary w _ (fun v w => h.seq (h.entriesOf w _ v) fun _ w => h.list w _) args
  | entries => exact h.unary w _ (fun v w => h.entries w v) args

end

/-! ### The host -/

section
variable {call : FrameRef → Caller} (hcall : ∀ env f args w, P (call env f args) w)
include hcall

/-- Every function of the host has the property if its calls have it. -/
theorem hostFunction (room : Room) (env : FrameRef) (f : HostFunctionRef) (args : List Value) :
    P (Host.callFunction room call env f args) w := by
  unfold Host.callFunction
  split
  · exact h.hostValue w hcall room _ _
  · exact h.hostValue w hcall room _ _

theorem foundBy (room : Room) (owner : Value) (name : String) (code : HostCode Attribute) :
    P (Run.foundBy room call owner name code) w := by
  refine h.seq (h.hostRun w hcall room code _) fun found w => ?_
  split <;> exact h.pure _ w

end

theorem cellAttribute (c : Cell) (name : String) : P (Run.cellAttribute c name) w := by
  unfold Run.cellAttribute
  split
  · exact h.pure _ w
  · exact h.pure _ w
  · split
    · exact h.pure _ w
    · exact h.seq (h.make _ (fun _ => rfl) w) fun _ w => h.pure _ w
  · exact h.pure _ w

theorem formalsAttribute (r : ClosureRef) (name : String) : P (Run.formalsAttribute r name) w := by
  refine h.seq (h.look w _) fun c w => ?_
  dsimp only
  split
  · exact h.seq (h.vector w _) fun _ w => h.pure _ w
  · exact h.seq (h.vector w _) fun _ w => h.pure _ w
  all_goals exact h.pure _ w

section
variable {call : FrameRef → Caller} (hcall : ∀ env f args w, P (call env f args) w)
include hcall

theorem memberOf (room : Room) (receiver : Value) (name : String) :
    P (Run.memberOf room call receiver name) w := by
  unfold Run.memberOf
  split
  · exact h.pure _ w
  · exact h.seq (h.look w _) fun c w => h.seq (h.cellAttribute w c name) fun _ w => h.pure _ w
  · exact h.look w _
  · exact h.formalsAttribute w _ name
  · exact h.look w _
  · exact h.foundBy w hcall room _ name _

/-- Looking for a member has the property. -/
theorem findMember (room : Room) (receiver : Value) (name : String) :
    P (Run.findMember room call receiver name) w := by
  have hattribute : ∀ w, P (Run.attributeOf room call receiver name) w := by
    intro w
    refine h.seq (h.memberOf w hcall room _ name) fun found w => ?_
    cases found with
    | some m => exact h.pure _ w
    | none => exact ite (h.pure _ w) (h.memberOf w hcall room _ _)
  unfold Run.findMember
  split
  · exact h.seq (h.look w _) fun _ w => h.pure _ w
  · exact h.seq (h.look w _) fun owner w => ite (h.foundBy w hcall room _ name _) (hattribute w)
  · exact hattribute w

end

/-! ### Methods -/

theorem hashable (key : Value) : P (OwnMethod.checkKey key) w :=
  h.seq (h.look w _) fun _ w => ite (h.pure _ w) (h.seq (h.look w _) fun _ w => h.raise _ w)

theorem symbolNamed (room : Room) (v : Value) : P (Run.symbolNamed room v) w := by
  cases v with
  | sym s => exact h.pure _ w
  | str s => exact h.pure _ w
  | _ => exact h.failAfter (h.shown w room _) _

theorem bindEntries (room : Room) (env : FrameRef) (r : MapRef) (size left : Nat) :
    P (OwnMethod.bindEntries room env r size left) w := by
  induction left generalizing w with
  | zero =>
    unfold OwnMethod.bindEntries
    exact h.seq (h.look w _) fun _ w => ite (h.raise _ w) (h.pure _ w)
  | succ left ih =>
    unfold OwnMethod.bindEntries
    refine h.seq (h.look w _) fun _ w => ite (h.raise _ w) ?_
    dsimp only
    split
    · exact h.pure _ w
    · exact h.seq (h.symbolNamed w room _) fun _ w => h.seq (h.define w _ _ _) fun _ w => ih w

theorem spreadArguments (room : Room) (p : ParameterList) (v : Value) :
    P (OwnMethod.spreadArguments room p v) w := by
  refine h.seq (h.size w room v) fun count w => ite (h.pure _ w) ?_
  split
  any_goals exact h.items w room _ _ _
  · refine h.seq (h.look w id) fun found w => ?_
    dsimp only
    split
    · exact h.raise _ w
    · exact ite (h.raise _ w) (h.pure _ w)
  · refine h.seq (h.look w _) fun c w => ?_
    split
    · exact h.toList w room _
    · exact h.seq (h.look w _) fun _ w => h.raise _ w

/-- Calling a method of a closure, a parameter list or an environment has the property. -/
theorem ownMethod (room : Room) (args : List Value) (m : OwnMethod) : P (m.run room args) w := by
  unfold OwnMethod.run
  split
  · exact h.seq (h.look w _) fun c w => h.seq (h.spreadArguments w room _ _) fun _ w =>
      h.seq (h.bindArguments w _ _ _ _) fun _ w => h.pure _ w
  · exact h.seq (h.look w _) fun _ w => h.vector w _
  · exact h.seq (h.symbolNamed w room _) fun _ w => h.seq (h.define w _ _ _) fun _ w => h.pure _ w
  · exact h.seq (h.hashable w _) fun _ w => h.seq (h.look w _) fun _ w => h.pure _ w
  · exact h.seq (h.hashable w _) fun _ w => h.seq (h.look w _) fun _ w =>
      h.seq (h.modify w _ fun _ => rfl) fun _ w => h.pure _ w
  · refine h.seq (h.hashable w _) fun _ w => h.seq (h.look w _) fun found w => ?_
    split
    · exact h.pure _ w
    · exact h.failAfter (h.plain w room _) _
  · exact h.seq (h.symbolNamed w room _) fun _ w => h.seq (h.look w _) fun _ w => h.pure _ w
  · split
    · exact h.seq (h.look w _) fun _ w => h.seq (h.bindEntries w room _ _ _ _) fun _ w => h.pure _ w
    · exact h.seq (h.look w _) fun _ w => h.raise _ w
  · exact h.seq (h.look w _) fun _ w => h.make _ (fun _ => rfl) w
  · exact h.raise _ w

/-- Calling a method has the property. -/
theorem callMember {call : FrameRef → Caller} (hcall : ∀ env f args w, P (call env f args) w)
    (room : Room) (args : List Value) (m : Member) : P (Run.callMember room call args m) w := by
  cases m with
  | value v => exact h.pure v w
  | own m => exact h.ownMethod w room args m
  | method owner name => exact h.hostValue w hcall room _ _

end

end Run.Permissive

end TemplateLisp
