import TemplateLisp.Eval.Eval

/-!
# Closed properties of runs

Runs are put together from few things: looking at the world, making and changing objects, and
stopping. `Run.Closed` collects what a property must be closed under to hold of all that is put
together from these; the lemmas in its namespace say so of what evaluations and built-in functions
have in common.

A property is one of a run and the world it starts from, so that what is known of a world is not
lost on the way. That is needed for one thing: `World.Raises` says why a failure of the host may
leave an evaluation as it is, and one of the reasons is a form that the world shows.
-/

namespace TemplateLisp

/-! ## Failures of the host outside of built-in functions -/

/-- Why an evaluation may end in a failure of the host: a macro call whose arguments are no
sequence, a map that is given a new key while it is walked through, an integer with too many digits
for the text of a message, or a sequence of the host that breaks off, which is for the code of the
host to say. -/
inductive World.Raises [Host] (w : World) : HostFault → Prop where
  | notIterable {table : MacroTableRef} {r : CellRef} {s : Symbol} {t : Transformer} :
    (w.cell r).car = .sym s → w.transformer? table s = some t → w.cursor? (w.cell r).cdr = none →
    w.Raises (.notIterable (w.qualifiedTypeName (w.cell r).cdr))
  | mapResized : w.Raises .mapResized
  | integerTextTooLong {guard : Option (List Value)} {levels : Nat} {v : Value} :
    w.unfoldAt guard levels v = .error (.crash .integerTextTooLong) → w.Raises .integerTextTooLong
  | iteration {room : Room} {r : ObjectRef} {index : Nat} {f : HostFault} {before after : World} :
    (Host.elementAt room r index).run before = .error (.crash f) after → w.Raises f

/-- A look at the world that fails, if at all, as a text that is too long. -/
def World.FailsAsText {α : Type} (x : Except Stop α) : Prop :=
  ∀ f, x = .error (.crash f) → f = .integerTextTooLong

namespace World.FailsAsText

section
variable {α β : Type}

theorem ok (a : α) : FailsAsText (.ok a) := fun _ h => by cases h

theorem error {s : Stop} (hs : ∀ f, s ≠ .crash f) : FailsAsText (.error s : Except Stop α) := by
  intro f h
  cases h
  exact absurd rfl (hs f)

theorem bind {x : Except Stop α} {f : α → Except Stop β} (hx : FailsAsText x)
    (hf : ∀ a, FailsAsText (f a)) : FailsAsText (x >>= f) := by
  intro g hg
  cases x with
  | error s =>
    cases hg
    exact hx g rfl
  | ok a => exact hf a g hg

theorem mapM {f : α → Except Stop β} (hf : ∀ a, FailsAsText (f a)) (as : List α) :
    FailsAsText (as.mapM f) := by
  induction as with
  | nil => exact ok _
  | cons a as ih =>
    rw [List.mapM_cons]
    exact bind (hf a) fun _ => bind ih fun _ => ok _

end

theorem unfoldAtom (w : World) (v : Value) : FailsAsText (w.unfoldAtom v) := by
  cases v with
  | num n =>
    cases n with
    | int n =>
      intro f hf
      simp only [World.unfoldAtom] at hf
      by_cases hn : n.natAbs < Number.digitBound
      · rw [if_pos hn] at hf
        cases hf
      · rw [if_neg hn] at hf
        cases hf
        rfl
    | _ => exact ok _
  | _ => exact ok _

/-- Writing a value out as a tree fails in one way only. -/
theorem unfoldAt (w : World) (guard : Option (List Value)) (levels : Nat) (v : Value) :
    FailsAsText (w.unfoldAt guard levels v) := by
  induction levels generalizing guard v with
  | zero => exact error (by simp)
  | succ n ih =>
    cases v with
    | cell r =>
      simp only [World.unfoldAt]
      split
      · exact error (by simp)
      · refine bind (mapM (fun (c : Cell) => bind (ih none c.car) fun _ => ok _) _) fun items => ?_
        exact bind (ih none _) fun last => ok _
    | vector r =>
      simp only [World.unfoldAt]
      split
      · exact ok _
      · exact bind (mapM (ih _) _) fun _ => ok _
    | tuple r =>
      simp only [World.unfoldAt]
      split
      · exact ok _
      · exact bind (mapM (ih _) _) fun _ => ok _
    | map r =>
      simp only [World.unfoldAt]
      split
      · exact ok _
      · refine bind (mapM (fun (p : Value × Value) => ?_) _) fun _ => ok _
        exact bind (ih _ p.1) fun _ => bind (ih _ p.2) fun _ => ok _
    | env r =>
      have hentry (p : Value × Value) : FailsAsText (do
          let name := (← w.unfoldAt (bareGuard p.1) n p.1).plain
          return name ++ ": " ++ (← w.unfoldAt (some (guard.getD [])) n p.2).shown) :=
        bind (ih _ p.1) fun _ => bind (ih _ p.2) fun _ => ok _
      simp only [World.unfoldAt]
      split
      · exact bind (bind (mapM hentry _) fun _ => ok _) fun _ => ok _
      · refine bind (mapM (fun s => ?_) _) fun _ => ok _
        split
        · exact ok _
        · exact bind (mapM hentry _) fun _ => ok _
    | _ =>
      simp only [World.unfoldAt]
      exact unfoldAtom w _

end World.FailsAsText

/-- A text that cannot be made for a message is a reason for the failure. -/
theorem World.raises_of_map_unfoldAt [Host] {w : World} {guard : Option (List Value)} {levels : Nat}
    {v : Value} {text : Datum → String} {f : HostFault}
    (h : (w.unfoldAt guard levels v).map text = .error (.crash f)) : w.Raises f := by
  cases hv : w.unfoldAt guard levels v with
  | ok d => rw [hv] at h; cases h
  | error s =>
    rw [hv] at h
    cases h
    obtain rfl := World.FailsAsText.unfoldAt w guard levels v f hv
    exact .integerTextTooLong hv

@[simp] theorem World.addList_output (w : World) (items : List Value) (tail : Value) :
    (w.addList items tail).2.output = w.output := by
  unfold World.addList
  induction items.reverse generalizing w tail with
  | nil => rfl
  | cons item rest ih => exact ih _ _

@[simp] theorem World.setEntries_output (w : World) (r : MapRef) (es : List (Value × Value)) :
    (w.setEntries r es).output = w.output := by
  cases r <;> rfl

/-- What host code asks for writes nothing. -/
theorem World.serve_output (w : World) (room : Room) (known : List Value) (q : HostRequest) :
    (w.serve room known q).2.output = w.output := by
  cases q
  all_goals
    simp only [World.serve]
    repeat' split
  all_goals first
    | rfl
    | exact w.setEntries_output _ _

/-! ## Closed properties -/

/-- A property of runs that holds of what leaves the output as it is and passes from parts to
wholes. -/
structure Run.Closed [Host] (P : ∀ ⦃α : Type⦄, Run α → World → Prop) : Prop where
  pure : ∀ {α : Type} (a : α) (w : World), P (Pure.pure a) w
  bind : ∀ {α β : Type} {x : Run α} {f : α → Run β} {w : World}, P x w →
    (∀ a w', x.run w = .ok a w' → P (f a) w') → P (x >>= f) w
  stop : ∀ {α : Type} (s : Stop) (w : World), (∀ f, s ≠ .crash f) → P (throw s : Run α) w
  crash : ∀ {α : Type} (f : HostFault) (w : World), w.Raises f → P (Run.crash f : Run α) w
  lookOrStop : ∀ {α : Type} (f : World → Except Stop α) (w : World),
    (∀ g, f w = .error (.crash g) → w.Raises g) → P (Run.lookOrStop f) w
  make : ∀ {α : Type} (f : World → α × World), (∀ w, (f w).2.output = w.output) →
    ∀ w, P (Run.make f) w

namespace Run.Closed

section
variable [Host] {P : ∀ ⦃α : Type⦄, Run α → World → Prop} (h : Run.Closed P) {α β : Type} (w : World)
include h

/-- Parts that have the property from every world. -/
theorem seq {x : Run α} {f : α → Run β} {w : World} (hx : P x w) (hf : ∀ a w, P (f a) w) :
    P (x >>= f) w := h.bind hx fun a w' _ => hf a w'

theorem map {x : Run α} {w : World} (f : α → β) (hx : P x w) : P (f <$> x) w := by
  rw [map_eq_pure_bind]
  exact h.seq hx fun a w => h.pure (f a) w

omit h [Host] in
theorem ite {c : Prop} [Decidable c] {x y : Run α} {w : World} (hx : P x w) (hy : P y w) :
    P (if c then x else y) w := by
  split
  · exact hx
  · exact hy

theorem mapM {f : α → Run β} (hf : ∀ a w, P (f a) w) (as : List α) : P (as.mapM f) w := by
  induction as generalizing w with
  | nil => exact h.pure _ w
  | cons a as ih =>
    rw [List.mapM_cons]
    exact h.seq (hf a w) fun _ w => h.seq (ih w) fun _ w => h.pure _ w

theorem look (f : World → α) : P (Run.look f) w :=
  h.lookOrStop (fun w => .ok (f w)) w fun _ hg => by cases hg

theorem fail (f : Fault) : P (Run.fail f : Run α) w := h.stop _ w (by simp [Stop.ofFault])

theorem modify (f : World → World) (hf : ∀ w, (f w).output = w.output) :
    P (modify f : Run PUnit) w := h.make (fun w => (PUnit.unit, f w)) hf w

/-- A stop whose message has to be made first. -/
theorem failAfter {x : Run α} {w : World} (hx : P x w) (f : α → Fault) :
    P (x >>= fun a => (Run.fail (f a) : Run β)) w := h.seq hx fun _ w => h.fail w _

/-! ### Texts, types and lists -/

theorem shown (room : Room) (v : Value) : P (Run.shown room v) w :=
  h.lookOrStop _ w fun _ => World.raises_of_map_unfoldAt

theorem plain (room : Room) (v : Value) : P (Run.plain room v) w :=
  h.lookOrStop _ w fun _ => World.raises_of_map_unfoldAt

theorem displayed (room : Room) (v : Value) : P (Run.displayed room v) w :=
  h.lookOrStop _ w fun _ => World.raises_of_map_unfoldAt

theorem typeName (v : Value) : P (Run.typeName v) w := h.look w _

theorem wrongArgument (function : String) (index : Nat) (expected : String) (v : Value) :
    P (Run.wrongArgument function index expected v : Run α) w := h.failAfter (h.typeName w v) _

theorem improperList (room : Room) (v : Value) : P (Run.improperList room v : Run α) w :=
  h.failAfter (h.lookOrStop _ w fun _ => World.raises_of_map_unfoldAt) _

theorem spine (v : Value) : P (Run.spine v) w := by
  refine h.lookOrStop _ w fun g hg => ?_
  cases hs : w.spine? v with
  | some s => rw [hs] at hg; cases hg
  | none => rw [hs] at hg; cases hg

theorem properItems (room : Room) (v : Value) : P (Run.properItems room v) w :=
  h.seq (h.spine w v) fun _ w => ite (h.pure _ w) (h.improperList w room v)

/-! ### Making values -/

theorem listWithTail (items : List Value) (tail : Value) : P (Run.listWithTail items tail) w :=
  h.make _ (fun w => w.addList_output items tail) w

theorem list (items : List Value) : P (Run.list items) w := h.listWithTail w items .nil

theorem vector (items : List Value) : P (Run.vector items) w := h.make _ (fun _ => rfl) w

theorem newMap (entries : List (Value × Value)) : P (Run.map entries) w := h.make _ (fun _ => rfl) w

/-! ### Environments -/

theorem newFrame (outer : Option FrameRef) : P (Run.newFrame outer) w := h.make _ (fun _ => rfl) w

theorem define (env : FrameRef) (name : Symbol) (v : Value) : P (Run.define env name v) w :=
  h.modify w _ fun _ => rfl

theorem assign (env : FrameRef) (name : Symbol) (v : Value) : P (Run.assign env name v) w :=
  h.modify w _ fun _ => rfl

theorem lookup (env : FrameRef) (name : Symbol) : P (Run.lookup env name) w := by
  refine h.seq (h.look w _) fun found w => ?_
  cases found with
  | some v => exact h.pure v w
  | none => exact h.fail w _

theorem parameterList (room : Room) (v : Value) : P (ParameterList.ofValue room v) w := by
  refine h.seq (h.spine w v) fun s w => ?_
  dsimp only
  split
  · exact h.pure _ w
  · exact h.failAfter (h.shown w room _) _
  · exact h.fail w _
  · exact h.failAfter (h.shown w room v) _
  · exact h.fail w _

theorem bindArguments (p : ParameterList) (args : List Value) (outer : FrameRef)
    (name : Option String) : P (p.bind args outer name) w := by
  unfold ParameterList.bind
  dsimp only
  split
  · exact h.fail w _
  · split
    · exact h.make _ (fun _ => rfl) w
    · exact h.seq (h.list w _) fun rest w => h.make _ (fun _ => rfl) w

/-! ### Sequences -/

/-- Host code that calls nothing, as far as it does not fail in a way of its own. -/
theorem hostCode (room : Room) (code : HostCode α) {known : List Value} {w : World}
    (hcode : ∀ f w', (code.run room HostCode.noCalls known).run w = .error (.crash f) w' →
      ∀ w : World, w.Raises f) : P (code.run room HostCode.noCalls known) w := by
  induction code generalizing known w with
  | answer a => exact h.pure _ w
  | raise s =>
    by_cases hs : ∃ f, s = .crash f
    · obtain ⟨f, rfl⟩ := hs
      exact h.crash f w (hcode f w rfl w)
    · exact h.stop s w fun f hf => hs ⟨f, hf⟩
  | ask request next ih =>
    simp only [HostCode.run] at hcode ⊢
    refine h.bind (h.make _ (fun w => ?_) w) fun outcome w' hmade => ?_
    · exact World.serve_output ..
    · rw [EStateM.run_bind, hmade] at hcode
      cases outcome with
      | error s =>
        cases s with
        | endless => exact h.stop _ w' (by simp)
        | _ => exact ih _ hcode
      | ok vs => exact ih _ hcode
  | call env f args next ih =>
    obtain ⟨s, hrun⟩ := HostCode.run_call_noCalls room known env f args next
    rw [hrun] at hcode ⊢
    exact ih _ hcode

theorem elementAt (room : Room) (r : ObjectRef) (index : Nat) :
    P (Host.elementAt room r index) w := by
  refine h.seq (h.hostCode room _ fun f w' hf w₁ => ?_) fun _ w => h.pure _ w
  have hfails : (Host.elementAt room r index).run w = .error (.crash f) w' := by
    unfold Host.elementAt
    rw [EStateM.run_bind, hf]
  exact .iteration hfails

theorem next (room : Room) (c : Cursor) : P (c.next room) w := by
  match c with
  | .list whole behind =>
    refine h.seq (h.look w _) fun rest w => ?_
    cases rest with
    | cell r => exact h.seq (h.look w _) fun _ w => h.pure _ w
    | nil => exact h.pure _ w
    | _ => exact h.improperList w room whole
  | .items [] => exact h.pure _ w
  | .items (_ :: _) => exact h.pure _ w
  | .entries r index size =>
    refine h.seq (h.look w _) fun es w => ite (h.crash _ w .mapResized) ?_
    split
    · exact h.pure _ w
    · exact h.seq (h.list w _) fun _ w => h.pure _ w
  | .generator r =>
    refine h.seq (h.look w _) fun rest w => ?_
    cases rest with
    | nil => exact h.pure _ w
    | cons v vs => exact h.seq (h.modify w _ fun _ => rfl) fun _ w => h.pure _ w
  | .vector r index =>
    refine h.seq (h.look w _) fun items w => ?_
    split
    · exact h.pure _ w
    · exact h.pure _ w
  | .object r index =>
    refine h.seq (h.elementAt w room r index) fun found w => ?_
    cases found with
    | none => exact h.pure _ w
    | some v => exact h.pure _ w

theorem mapAt (room : Room) {f : Value → Run α} (hf : ∀ v w, P (f v) w) (fuel : Nat)
    (found : List α) (c : Cursor) : P (c.mapAt room f fuel found) w := by
  induction fuel generalizing found c w with
  | zero => exact h.stop _ w (by simp)
  | succ n ih =>
    refine h.seq (h.next w room c) fun next w => ?_
    cases next with
    | none => exact h.pure _ w
    | some p => exact h.seq (hf p.1 w) fun a w => ih w _ p.2

theorem mapCursor (room : Room) {f : Value → Run α} (hf : ∀ v w, P (f v) w) (c : Cursor) :
    P (c.map room f) w := h.seq (h.look w _) fun fuel w => h.mapAt w room hf fuel [] c

theorem toList (room : Room) (c : Cursor) : P (c.toList room) w :=
  h.mapCursor w room (fun v w => h.pure v w) c

theorem cursor (function : String) (index : Nat) (v : Value) :
    P (Run.cursor function index v) w := by
  refine h.seq (h.look w _) fun found w => ?_
  cases found with
  | some c => exact h.pure c w
  | none => exact h.wrongArgument w _ _ _ v

theorem ofKeyword (s : Symbol) (args : List Value) : P (Maps.ofKeyword s args) w := by
  unfold Maps.ofKeyword
  split
  rotate_right
  · exact h.fail w _
  -- With one argument and with two the map is looked up in the same way.
  all_goals
    dsimp only
    split
    · exact h.pure _ w
    · exact h.seq (h.look w _) fun _ w => h.pure _ w
    · exact h.wrongArgument w _ _ _ _

end

end Run.Closed

end TemplateLisp
