import TemplateLisp.Host.Sample
import TemplateLisp.Proofs.InvariantEvaluation

/-!
# Data keeps its contents

Three built-in functions give a pair or a map new contents: `set-car!`, `set-cdr!` and `map-set!`.
An evaluation in which none of them is called, and in which code of the host gives no object new
contents, leaves every pair, vector, fixed sequence and map that there was as it was, however it
ends (`evaluate_keeps_data`). All that it does to such objects is to make new ones. The form that is
evaluated is made of such objects, so it is the same form afterwards.

The variables of a frame are a map too, but they are kept out of this: assigning a variable changes
them, and a program can get hold of that map (`assignment_changes_map`).

That none of the three is called is said by an alarm: raised at each such call, it makes no
difference to the evaluation, whichever stop is taken for it. The same alarm stands where code of
the host asks for a change of an object.
-/

namespace TemplateLisp

namespace World

/-! ## Data -/

/-- What a pair, vector, fixed sequence or map is made of, where the variables of a frame, which are
a map too, count as made of nothing. So does everything else. -/
def ownParts (w : World) : Value → List Value
  | .cell r => w.held (.cell r)
  | .vector r => w.held (.vector r)
  | .tuple r => w.held (.tuple r)
  | .map (.own index) => w.held (.map index)
  | _ => []

/-- The second value is the first or somewhere inside of it, on a way that leads through no
variables of a frame. -/
def Owns (w : World) : Value → Value → Prop :=
  Relation.ReflTransGen fun v x => x ∈ w.ownParts v

/-- All data of the first world is in the second, with the same contents. -/
structure Keeps (w w' : World) : Prop extends w.Grows w' where
  cell : ∀ r : CellRef, r.index < w.cells.size → w'.cell r = w.cell r
  vector : ∀ r : VectorRef, r.index < w.vectors.size → w'.vector r = w.vector r
  tuple : ∀ r : TupleRef, r.index < w.tuples.size → w'.tuple r = w.tuple r
  entries : ∀ index : Nat, index < w.maps.size → w'.entries (.own index) = w.entries (.own index)

variable {w w' : World}

@[refl] theorem Keeps.refl (w : World) : w.Keeps w :=
  ⟨.refl w, fun _ _ => rfl, fun _ _ => rfl, fun _ _ => rfl, fun _ _ => rfl⟩

theorem Keeps.trans {w₁ w₂ w₃ : World} (h : w₁.Keeps w₂) (h' : w₂.Keeps w₃) : w₁.Keeps w₃ where
  toGrows := h.toGrows.trans h'.toGrows
  cell r hr := (h'.cell r (Nat.lt_of_lt_of_le hr h.cells)).trans (h.cell r hr)
  vector r hr := (h'.vector r (Nat.lt_of_lt_of_le hr h.vectors)).trans (h.vector r hr)
  tuple r hr := (h'.tuple r (Nat.lt_of_lt_of_le hr h.tuples)).trans (h.tuple r hr)
  entries r hr := (h'.entries r (Nat.lt_of_lt_of_le hr h.maps)).trans (h.entries r hr)

theorem Keeps.ownParts (h : w.Keeps w') {v : Value} (hv : w.InRange v) :
    w'.ownParts v = w.ownParts v := by
  cases v with
  | cell r => simp only [World.ownParts, held, h.cell r hv]
  | vector r => exact h.vector r hv
  | tuple r => exact h.tuple r hv
  | map r =>
    cases r with
    | own index => exact congrArg entryValues (h.entries index hv)
    | vars env => rfl
  | _ => rfl

/-- What a value is made of is what one place holds, or it is made of nothing. -/
theorem ownParts_eq_held (v : Value) :
    (∃ place, ∀ w : World, w.ownParts v = w.held place) ∨ ∀ w : World, w.ownParts v = [] := by
  cases v with
  | cell r => exact .inl ⟨.cell r, fun _ => rfl⟩
  | vector r => exact .inl ⟨.vector r, fun _ => rfl⟩
  | tuple r => exact .inl ⟨.tuple r, fun _ => rfl⟩
  | map r =>
    cases r with
    | own index => exact .inl ⟨.map index, fun _ => rfl⟩
    | vars env => exact .inr fun _ => rfl
  | _ => exact .inr fun _ => rfl

theorem Sound.ownParts (h : w.Sound) {v x : Value} (hx : x ∈ w.ownParts v) : w.InRange x := by
  rcases ownParts_eq_held v with ⟨place, hplace⟩ | hnone
  · rw [hplace] at hx
    exact h.held place x hx
  · rw [hnone] at hx
    cases hx

theorem Sound.owns (h : w.Sound) {v x : Value} (hv : w.InRange v) (hx : w.Owns v x) :
    w.InRange x := by
  induction hx with
  | refl => exact hv
  | tail _ hstep _ => exact h.ownParts hstep

/-- What is inside of a value stays inside of it, and nothing else gets there. -/
theorem Keeps.owns_iff (h : w.Keeps w') (hw : w.Sound) {v : Value} (hv : w.InRange v) (x : Value) :
    w'.Owns v x ↔ w.Owns v x := by
  constructor
  · intro hx
    induction hx with
    | refl => exact .refl
    | tail _ hstep ih =>
      rw [h.ownParts (hw.owns hv ih)] at hstep
      exact ih.tail hstep
  · intro hx
    induction hx with
    | refl => exact .refl
    | tail hreach hstep ih =>
      rw [← h.ownParts (hw.owns hv hreach)] at hstep
      exact ih.tail hstep

end World

/-- If objects may not get new contents, a change keeps all data. -/
theorem Rules.Change.keeps {R : Rules} {w w' : World} (h : R.Change w w') (hR : ¬ R.mutation) :
    w.Keeps w' := by
  have hgrows := h.grows
  cases h with
  | cell =>
    refine ⟨hgrows, fun r hr => ?_, fun _ _ => rfl, fun _ _ => rfl, fun _ _ => rfl⟩
    rw [World.cell_addCell, if_neg (Nat.ne_of_lt hr)]
  | vector =>
    refine ⟨hgrows, fun _ _ => rfl, fun r hr => ?_, fun _ _ => rfl, fun _ _ => rfl⟩
    rw [World.vector_addVector, if_neg (Nat.ne_of_lt hr)]
  | tuple =>
    refine ⟨hgrows, fun _ _ => rfl, fun _ _ => rfl, fun r hr => ?_, fun _ _ => rfl⟩
    rw [World.tuple_addTuple, if_neg (Nat.ne_of_lt hr)]
  | map =>
    refine ⟨hgrows, fun _ _ => rfl, fun _ _ => rfl, fun _ _ => rfl, fun r hr => ?_⟩
    rw [World.entries_addMap, if_neg (Nat.ne_of_lt hr)]
  | setCar allowed | setCdr allowed | setVector allowed | setEntries allowed =>
    exact absurd allowed hR
  | _ => exact ⟨hgrows, fun _ _ => rfl, fun _ _ => rfl, fun _ _ => rfl, fun _ _ => rfl⟩

/-! ## Evaluations that change no data -/

/-- The data of a world is there with the same contents. Nothing is asked of what goes into new
objects. -/
def Invariant.dataOf (w₀ : World) : Invariant where
  strict := False
  mutation := False
  holds := w₀.Keeps
  step _ hw h _ := hw.trans (h.keeps id)

/-- In the evaluation of a form no function is called that gives an object new contents, and no code
of the host does so: an alarm in these places makes no difference. -/
def CallsNoMutator [H : Host] (n : Nat) (site : Site) (v : Value) (w : World) : Prop :=
  ∀ alarm : Stop, (@Watch.evaluate (H.barred alarm) (.barring alarm) n site v).run w =
    (evaluate n site v).run w

/-- Under the alarm, all data is kept until it is raised. -/
theorem barred_keeps_data [H : Host] (alarm : Stop) (n : Nat) (site : Site)
    (v : Value) (w : World) :
    w.Keeps (Run.leaves ((@Watch.evaluate (H.barred alarm) (.barring alarm) n site v).run w)) := by
  have hgood : (Invariant.dataOf w).Good w := ⟨False.elim, .refl w⟩
  have hsite : (Invariant.dataOf w).ValidSite w site := ⟨False.elim, trivial⟩
  have hv : (Invariant.dataOf w).Valid w v := False.elim
  let := H.barred alarm
  have : (Invariant.dataOf w).AllowsHost := ⟨.inr (H.additive_barred alarm)⟩
  have hends := ((Invariant.Watches.barring alarm).evaluate n hsite hv hgood).2
  exact hends.leaves.2.holds

/-- An evaluation in which no function is called that gives an object new contents keeps all data,
whatever its outcome. In a world where everything that is referred to exists, the form that is
evaluated is then made of the same parts afterwards, and all of them are data that has been kept. -/
theorem evaluate_keeps_data [Host] (n : Nat) (site : Site) (v : Value) (w : World)
    (h : CallsNoMutator n site v w) :
    w.Keeps (Run.leaves ((evaluate n site v).run w)) ∧
    (w.Sound → w.InRange v → ∀ x,
      ((Run.leaves ((evaluate n site v).run w)).Owns v x ↔ w.Owns v x) ∧
      (w.Owns v x → w.InRange x)) := by
  have hkeeps : w.Keeps (Run.leaves ((evaluate n site v).run w)) := by
    rw [← h .endless]
    exact barred_keeps_data .endless n site v w
  exact ⟨hkeeps, fun hw hv x => ⟨hkeeps.owns_iff hw hv x, hw.owns hv⟩⟩

/-- A world with the form `(reverse '(1 2))`, made of three pairs for the call and two
for the list. -/
def reversal : World :=
  { World.empty with
    cells := #[⟨.builtin .reverse, .cell ⟨1⟩, some ⟨1, 1⟩⟩, ⟨.cell ⟨2⟩, .nil, none⟩,
      ⟨.sym ⟨"quote"⟩, .cell ⟨3⟩, some ⟨1, 10⟩⟩, ⟨.cell ⟨4⟩, .nil, none⟩,
      ⟨.int 1, .cell ⟨5⟩, some ⟨1, 11⟩⟩, ⟨.int 2, .nil, none⟩]
    frames := #[⟨[], none⟩] }

/-- The root of `reversal`, without macros and with nesting unbounded. -/
def reversalSite : Site := ⟨⟨0⟩, ⟨0⟩, none, .unbounded⟩

/-- The world after the reversal, with two more pairs. -/
def reversed : World :=
  { reversal with
    cells := reversal.cells ++ #[⟨.int 1, .nil, none⟩, ⟨.int 2, .cell ⟨6⟩, none⟩] }

theorem reversal_evaluates [Host] :
    (evaluate 9 reversalSite (.cell ⟨0⟩)).run reversal = .ok (.cell ⟨7⟩) reversed := rfl

theorem reversal_barred [H : Host] (alarm : Stop) :
    (@Watch.evaluate (H.barred alarm) (.barring alarm) 9 reversalSite (.cell ⟨0⟩)).run reversal =
      .ok (.cell ⟨7⟩) reversed := rfl

theorem reversal_calls_no_mutator [Host] : CallsNoMutator 9 reversalSite (.cell ⟨0⟩) reversal :=
  reversal_barred

theorem reversal_sound : reversal.Sound := by decide

open scoped SampleHost in
/-- Reversing a quoted list leaves the list and the form around it as they are. -/
theorem evaluate_keeps_data_reversal :
    CallsNoMutator 9 reversalSite (.cell ⟨0⟩) reversal ∧ reversal.Sound ∧
    reversal.InRange (.cell ⟨0⟩) ∧
    (evaluate 9 reversalSite (.cell ⟨0⟩)).run reversal = .ok (.cell ⟨7⟩) reversed ∧
    reversal.Keeps reversed ∧ reversal.Owns (.cell ⟨0⟩) (.cell ⟨5⟩) ∧
    ∀ x, reversed.Owns (.cell ⟨0⟩) x ↔ reversal.Owns (.cell ⟨0⟩) x := by
  have hrange : reversal.InRange (.cell ⟨0⟩) := Nat.zero_lt_succ 5
  have h := evaluate_keeps_data 9 reversalSite (.cell ⟨0⟩) reversal reversal_calls_no_mutator
  rw [reversal_evaluates] at h
  refine ⟨reversal_calls_no_mutator, reversal_sound, hrange, rfl, h.1, ?_,
    fun x => (h.2 reversal_sound hrange x).1⟩
  -- from the call to its argument, from there to the quotation, and along the quoted list
  have step (i j : Nat) (hj : Value.cell ⟨j⟩ ∈ reversal.ownParts (.cell ⟨i⟩)) :
      reversal.Owns (.cell ⟨i⟩) (.cell ⟨j⟩) := .single hj
  exact (step 0 1 (by decide)).trans <| (step 1 2 (by decide)).trans <|
    (step 2 3 (by decide)).trans <| (step 3 4 (by decide)).trans (step 4 5 (by decide))

/-! ## Variables as a map -/

/-- A world with the form `(setq y 5)`, in whose root `y` is 1 and `m` is the map of the variables
of the root, as `(.vars (.env (fn () 1)))` gives it. -/
def sharedVariables : World :=
  { World.empty with
    cells := #[⟨.sym ⟨"setq"⟩, .cell ⟨1⟩, none⟩, ⟨.sym ⟨"y"⟩, .cell ⟨2⟩, none⟩,
      ⟨.int 5, .nil, none⟩]
    frames := #[⟨[(.sym ⟨"y"⟩, .int 1), (.sym ⟨"m"⟩, .map (.vars ⟨0⟩))], none⟩] }

/-- The world after the assignment. -/
def variableAssigned : World :=
  { sharedVariables with
    frames := #[⟨[(.sym ⟨"y"⟩, .int 5), (.sym ⟨"m"⟩, .map (.vars ⟨0⟩))], none⟩] }

theorem assignment_barred [H : Host] (alarm : Stop) :
    (@Watch.evaluate (H.barred alarm) (.barring alarm) 9 reversalSite (.cell ⟨0⟩)).run
      sharedVariables = .ok (.int 5) variableAssigned := rfl

theorem assignment_evaluates [Host] :
    (evaluate 9 reversalSite (.cell ⟨0⟩)).run sharedVariables = .ok (.int 5) variableAssigned := rfl

/-- The variables of a frame are a map that is there, and an assignment to one of them gives this
map new contents. No function is called for that, let alone code of the host, whatever the host. -/
theorem assignment_changes_map :
    sharedVariables.lookup? ⟨0⟩ ⟨"m"⟩ = some (.map (.vars ⟨0⟩)) ∧
    (∀ _ : Host, CallsNoMutator 9 reversalSite (.cell ⟨0⟩) sharedVariables ∧
      (evaluate 9 reversalSite (.cell ⟨0⟩)).run sharedVariables = .ok (.int 5) variableAssigned) ∧
    sharedVariables.entries (.vars ⟨0⟩) = [(.sym ⟨"y"⟩, .int 1), (.sym ⟨"m"⟩, .map (.vars ⟨0⟩))] ∧
    variableAssigned.entries (.vars ⟨0⟩) = [(.sym ⟨"y"⟩, .int 5), (.sym ⟨"m"⟩, .map (.vars ⟨0⟩))] :=
  ⟨rfl, fun _ => ⟨assignment_barred, assignment_evaluates⟩, rfl, rfl⟩

end TemplateLisp
