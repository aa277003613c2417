import TemplateLisp.Proofs.DataKept
import TemplateLisp.Proofs.ErrorPlaces
import TemplateLisp.Proofs.FormOutcomes
import TemplateLisp.Proofs.Rendering
import TemplateLisp.Host.Sample

/-!
# Forms that do not end in `nil`

The pairs of a form may end in something else than `nil`. The arguments of such a form are not
evaluated to the end: a form whose head takes its arguments unevaluated, a macro or special form,
stops before anything else is done, and every other form stops where the arguments end. So it has no
value, unless an argument has given the pairs of the form new contents meanwhile (`improper_forms`).

What stops a special form is that its arguments are no proper list, and that is only found out if
there is a pair behind the head. Otherwise the special form is taken to have no arguments, and some
have a value then (`SpecialForm.valueOfNone?`); a macro goes through whatever stands behind the
head.
-/

namespace TemplateLisp

/-! ## Forms and their heads -/

/-- The pairs from the given one on end in something else than `nil`. -/
def World.EndsIn (w : World) (r : CellRef) (last : Value) : Prop :=
  (∃ cells, w.spine? (.cell r) = some (cells, last)) ∧ last ≠ .nil

/-- The head names a macro or special form, which take the arguments as they stand. -/
def Site.TakesForms (site : Site) (w : World) (r : CellRef) : Prop :=
  ∃ s, (w.cell r).car = .sym s ∧
    ((w.transformer? site.macros s).isSome = true ∨ (SpecialForm.ofName? s.name).isSome = true)

namespace World.EndsIn

variable {w : World} {r : CellRef} {last : Value}

/-- What follows a pair of such a chain ends the same. -/
theorem spine_cdr (h : w.EndsIn r last) : ∃ cells, w.Spine (w.cell r).cdr cells last := by
  obtain ⟨⟨cells, hcells⟩, -⟩ := h
  obtain ⟨rest, -, hspine, -⟩ := spine_of_spineAt hcells
  cases hspine with
  | stop hr => exact absurd rfl (hr r)
  | pair hrest => exact ⟨_, hrest⟩

theorem cdr (h : w.EndsIn r last) {q : CellRef} (hq : (w.cell r).cdr = .cell q) :
    w.EndsIn q last := by
  obtain ⟨⟨cells, hcells⟩, hlast⟩ := h
  obtain ⟨rest, rfl, hspine, hlength⟩ := spine_of_spineAt hcells
  cases hspine with
  | stop hr => exact absurd rfl (hr r)
  | pair hrest =>
    rw [hq] at hrest
    simp only [List.length_cons] at hlength
    exact ⟨⟨_, hrest.spineAt (by omega) []⟩, hlast⟩

/-- A pair that does not exist would be followed by `nil`. -/
theorem exists_pair (h : w.EndsIn r last) : r.index < w.cells.size := by
  refine Nat.not_le.1 fun hle => ?_
  obtain ⟨cells, hspine⟩ := h.spine_cdr
  rw [World.cell_of_le hle] at hspine
  cases hspine
  exact h.2 rfl

/-- Where the arguments are taken as they stand, they are refused for their end. -/
theorem run_specialArguments (h : w.EndsIn r last) (site : Site) :
    (Evaluator.specialArguments site (.cell r)).run w =
      (Run.improperList site.room (.cell r)).run w := by
  obtain ⟨⟨cells, hcells⟩, hlast⟩ := h
  show (Run.properItems site.room (.cell r)).run w = _
  rw [Run.properItems, EStateM.run_bind, Run.spine, Run.run_lookOrStop, hcells]
  dsimp only
  rw [if_neg hlast]

theorem run_macroArguments [Host] (h : w.EndsIn r last) (room : Room) :
    (Evaluator.macroArguments room (.cell r)).run w = (Run.improperList room (.cell r)).run w := by
  obtain ⟨⟨cells, hcells⟩, hlast⟩ := h
  obtain ⟨rest, -, hspine, hlength⟩ := spine_of_spineAt hcells
  show (Cursor.toList room (.list (.cell r) none)).run w = _
  rw [Cursor.toList, Cursor.map, Run.run_look_bind, World.walkLength,
    hspine.walk hlength room (.cell r) rfl [], if_neg hlast]

end World.EndsIn

/-! ## No value -/

namespace Invariant

open Agree

/-- Nothing is a result. -/
abbrev Nothing {α : Type} : World → α → Prop := fun _ _ => False

theorem valid_dataOf {w₀ : World} (w : World) (v : Value) : (dataOf w₀).Valid w v := False.elim

theorem validSite_dataOf {w₀ : World} (w : World) (site : Site) : (dataOf w₀).ValidSite w site :=
  ⟨False.elim, trivial⟩

/-- A run that comes to nothing is followed by nothing. -/
theorem Agree.then {I : Invariant} {α β : Type} {w : World} {P : World → β → Prop} {x : Run α}
    (hx : I.Keeps w Nothing x) (f : α → Run β) : I.Keeps w P (x >>= f) :=
  bind hx fun _ _ _ => False.elim

/-- Arguments that are refused for their end come to nothing. -/
theorem refused {w₀ : World} {r : CellRef} (room : Room) {x : Run (List Value)}
    (hpair : ∃ q, (w₀.cell r).cdr = .cell q) (hx : ∀ q, (w₀.cell r).cdr = .cell q →
      x.run w₀ = (Run.improperList room (.cell q)).run w₀) : (dataOf w₀).Keeps w₀ Nothing x := by
  obtain ⟨q, hq⟩ := hpair
  intro hw
  rw [hx q hq]
  exact ⟨rfl, (improperList room (.cell q) hw).2⟩

section
variable {w₀ : World} {last : Value} {site : Site} {e : Evaluator} (he : (dataOf w₀).Evaluators e e)
  (n : Nat)
include he

/-- The arguments do not have values if they end in something else than `nil`, as long as data is
kept. -/
theorem arguments_dataOf {r : CellRef} (hr : w₀.EndsIn r last) (found : List Value) (w : World) :
    (dataOf w₀).Keeps w Nothing (e.arguments site n found (w₀.cell r).cdr) := by
  induction n generalizing r found w with
  | zero => exact throw _
  | succ n ih =>
    cases hcdr : (w₀.cell r).cdr with
    | cell q =>
      have hq := hr.cdr hcdr
      refine look fun hw => bind (value he (validSite_dataOf w site) (valid_dataOf w _))
        fun x w' _ _ => look fun hw' => ?_
      rw [hw'.holds.cell q hq.exists_pair]
      exact ih hq (x :: found) w'
    | nil =>
      obtain ⟨cells, hspine⟩ := hr.spine_cdr
      rw [hcdr] at hspine
      cases hspine
      exact absurd rfl hr.2
    | _ => exact fail _

variable {r : CellRef} (hr : w₀.EndsIn r last) (tail : Bool) (alarm : Stop)
include hr

theorem callHead_dataOf [Host] (head f : Value) (w : World) :
    (dataOf w₀).Keeps w Nothing ((Watch.barring alarm).callHead e n tail site r head f) := by
  refine ite (fun _ => look fun hw => ?_) fun _ =>
    bind (plain site.room head) fun _ _ _ _ => failAfter (shown site.room f) _
  rw [hw.holds.cell r hr.exists_pair]
  exact .then (arguments_dataOf he n hr [] w) _

/-- A form does not have a value, unless its head takes the arguments as they stand and no pair is
behind it. -/
theorem form_dataOf [Host] (hforms : site.TakesForms w₀ r → ∃ q, (w₀.cell r).cdr = .cell q) :
    (dataOf w₀).Keeps w₀ Nothing ((Watch.barring alarm).form e n tail site r) := by
  refine look fun _ => ?_
  split
  · rename_i s hcar
    refine look fun _ => ?_
    split
    · rename_i t ht
      have hpair := hforms ⟨s, hcar, .inl (by rw [ht]; rfl)⟩
      refine look fun _ => .then (refused site.room hpair fun q hq => ?_) _
      rw [hq, (hr.cdr hq).run_macroArguments]
    · split
      · rename_i f hf
        have hpair := hforms ⟨s, hcar, .inr (by rw [hf]; rfl)⟩
        refine look fun _ => .then (refused site.room hpair fun q hq => ?_) _
        rw [hq, (hr.cdr hq).run_specialArguments]
      · have hargs : (dataOf w₀).Keeps w₀ Nothing (e.arguments site n [] (w₀.cell r).cdr) :=
          arguments_dataOf he n hr [] w₀
        have hmember : (dataOf w₀).Keeps w₀ Nothing (e.memberForm n site r s) :=
          look fun _ => .then hargs _
        refine ite (fun _ => .then hmember _) fun _ =>
          ite (fun _ => look fun _ => .then hargs _) fun _ => ?_
        exact bind (lookup (valid_dataOf w₀ _) s) fun f w _ _ =>
          callHead_dataOf he n hr tail alarm (.sym s) f w
  · exact bind (value he (validSite_dataOf w₀ site) (valid_dataOf w₀ _)) fun f w _ _ =>
      callHead_dataOf he n hr tail alarm _ f w

omit he in
theorem eval_dataOf [Host] [(dataOf w₀).AllowsHost]
    (hforms : site.TakesForms w₀ r → ∃ q, (w₀.cell r).cdr = .cell q) :
    (dataOf w₀).Keeps w₀ Nothing
    (((Watch.barring alarm).evaluator n).eval tail site (.cell r)) := by
  cases n with
  | zero => exact throw _
  | succ n =>
    have heval : ((Watch.barring alarm).evaluator (n + 1)).eval tail site (.cell r) = (do
        let inner ← site.deeper
        Run.placed (← Run.look fun w => (w.cell r).pos)
          ((Watch.barring alarm).form ((Watch.barring alarm).evaluator n) n tail inner r)) :=
      pure_bind () _
    rw [heval, Site.deeper]
    split
    · rw [pure_bind]
      refine look fun _ => placed _ ?_
      exact form_dataOf ((Watches.barring alarm).evaluator n) n hr tail alarm hforms
    · exact throw _

end

end Invariant

/-- No value comes out where no data gets new contents. -/
theorem evaluate_endsIn_ne_ok [H : Host] {w : World} {r : CellRef} {last : Value}
    (hr : w.EndsIn r last) {site : Site} (hforms : site.TakesForms w r → ∃ q, (w.cell r).cdr =
    .cell q) {n : Nat}
    (h : CallsNoMutator n site (.cell r) w) (v : Value) (w' : World) :
    (evaluate n site (.cell r)).run w ≠ .ok v w' := by
  intro hok
  have hends : (Invariant.dataOf w).Ends w Invariant.Nothing
      ((@Watch.evaluate (H.barred .endless) (.barring .endless) n site (.cell r)).run w) := by
    let := H.barred .endless
    have : (Invariant.dataOf w).AllowsHost := ⟨.inr (H.additive_barred .endless)⟩
    have hkeeps : (Invariant.dataOf w).Keeps w Invariant.Nothing
        ((Watch.barring .endless).evaluate n site (.cell r)) :=
      .then (Invariant.eval_dataOf n hr true .endless hforms) _
    exact (hkeeps ⟨False.elim, .refl w⟩).2
  rw [h .endless, hok] at hends
  exact hends.2.2

/-! ## Forms whose arguments are taken as they stand -/

/-- The value of a special form without arguments, where it has one. -/
def SpecialForm.valueOfNone? : SpecialForm → Option Value
  | .progn => some .nil
  | .cond => some .nil
  | .conjunction => some (.bool true)
  | .disjunction => some .nil
  | _ => none

/-- Without arguments, a special form has the value, leaves, or fails. -/
theorem SpecialForm.run_nil [Host] (e : Evaluator) (n : Nat) (tail : Bool) (site : Site)
    (f : SpecialForm) (w : World) :
    (∃ v, f.valueOfNone? = some v ∧ (f.run e n tail site []).run w = .ok (.value v) w) ∨
      f = .leave ∧ (f.run e n tail site []).run w = .error (.returned .nil) w ∨
      f.valueOfNone? = none ∧ f ≠ .leave ∧
        ∃ fault, (f.run e n tail site []).run w = .error (.ofFault fault) w := by
  cases f with
  | progn | cond | conjunction | disjunction => exact .inl ⟨_, rfl, rfl⟩
  | leave => exact .inr (.inl ⟨rfl, rfl⟩)
  | _ => exact .inr (.inr ⟨rfl, nofun, _, rfl⟩)

section
variable {site : Site} (hroom : site.room = .unbounded) {w : World} {r : CellRef}
include hroom

/-- A pair is evaluated as a form and gives its place to an error. -/
theorem run_eval_cell [Host] (n : Nat) (tail : Bool) :
    (eval (n + 1) tail site (.cell r)).run w =
      Run.placedOutcome (w.cell r).pos (((evaluator n).form n tail site r).run w) := by
  show ((evaluator n).any n tail site (.cell r)).run w = _
  rw [Evaluator.any, site.deeper_of_unbounded hroom, pure_bind, Run.run_look_bind, Run.run_placed]

theorem comesTo_placed [Host] {tail : Bool} {fault : Fault} {w' : World}
    (h : Run.ComesTo (fun n => (evaluator n).form n tail site r) w (.error (.ofFault fault) w')) :
    Run.ComesTo (fun n => eval n tail site (.cell r)) w
      (.error (.error ⟨fault, (w.cell r).pos⟩) w') := by
  obtain ⟨-, k, hk⟩ := h
  refine Run.comesTo_succ.1 ⟨nofun, k, fun n hn => ?_⟩
  dsimp only
  rw [run_eval_cell hroom, hk n hn]
  rfl

/-- Arguments behind a pair are refused with an error that shows them. -/
theorem eval_takesForms [Host] {last : Value} (hr : w.EndsIn r last) (hforms : site.TakesForms w r)
    {q : CellRef} (hq : (w.cell r).cdr = .cell q) {text : String}
    (htext : w.readableText .unbounded (.cell q) = .ok text) (n : Nat) (tail : Bool) :
    (eval (n + 1) tail site (.cell r)).run w =
      .error (.error ⟨.type (.improperList text), (w.cell r).pos⟩) w := by
  have himproper : (Run.improperList site.room (.cell q) : Run (List Value)).run w =
      .error (.ofFault (.type (.improperList text))) w := by
    rw [World.run_improperList, hroom, htext]
  rw [run_eval_cell hroom]
  obtain ⟨s, hcar, hkind⟩ := hforms
  cases ht : w.transformer? site.macros s with
  | some t =>
    rw [Evaluator.run_macroForm _ hcar ht, hq, EStateM.run_bind, (hr.cdr hq).run_macroArguments,
      himproper]
    rfl
  | none =>
    obtain ⟨f, hf⟩ := Option.isSome_iff_exists.1 (hkind.resolve_left (by simp [ht]))
    rw [Evaluator.run_specialForm _ hcar ht hf, hq, EStateM.run_bind,
      (hr.cdr hq).run_specialArguments,
      himproper]
    rfl

/-- Without a pair behind it, a special form has no arguments. -/
theorem eval_special_of_atom [Host] {s : Symbol} {f : SpecialForm} (hcar : (w.cell r).car = .sym s)
    (ht : w.transformer? site.macros s = none) (hf : SpecialForm.ofName? s.name = some f)
    (hcdr : ∀ q, (w.cell r).cdr ≠ .cell q) (n : Nat) (tail : Bool) :
    (eval (n + 1) tail site (.cell r)).run w =
      Run.placedOutcome (w.cell r).pos ((f.run (evaluator n) n tail site []).run w) := by
  have hnone : Evaluator.specialArguments site (w.cell r).cdr = pure [] := by
    cases hrest : (w.cell r).cdr with
    | cell q => exact absurd hrest (hcdr q)
    | _ => rfl
  rw [run_eval_cell hroom, Evaluator.run_specialForm _ hcar ht hf, hnone, pure_bind]

/-- A macro gets the elements of what is behind its name. -/
theorem eval_macro_of_items [Host] {s : Symbol} {t : Transformer} (hcar : (w.cell r).car = .sym s)
    (ht : w.transformer? site.macros s = some t) {items : List Value} {w₁ : World}
    (hitems : (Evaluator.macroArguments .unbounded (w.cell r).cdr).run w = .ok items w₁) (n : Nat)
    (tail : Bool) : (eval (n + 1) tail site (.cell r)).run w = Run.placedOutcome (w.cell r).pos
      (((evaluator n).expand site items t >>= eval n tail site).run w₁) := by
  rw [run_eval_cell hroom, Evaluator.run_macroForm _ hcar ht, hroom, EStateM.run_bind, hitems]
  rfl

end

/-! ## Forms whose arguments are evaluated -/

namespace Site

/-- From `w`, the forms from a value on have values one after the other, each of them found when it
is reached, until what follows is no pair; the world is `w'` then. The condition holds of the worlds
that the values leave. -/
inductive Walks [Host] (site : Site) (P : World → Prop) : World → Value → World → Value → Prop where
  | ended {w : World} {v : Value} (last : ∀ r, v ≠ .cell r) : Walks site P w v w v
  | pair {w w₁ w' : World} {q : CellRef} {x last : Value}
    (value : site.HasValue w (w.cell q).car x w₁)
      (left : P w₁) (rest : Walks site P w₁ (w₁.cell q).cdr w' last) :
      Walks site P w (.cell q) w' last

/-- From `w`, the evaluation of the form comes to its arguments, which stand behind the pair in
`w₁`: its head is a member name or keyword, or has a function as its value. -/
inductive Unpacks [Host] (site : Site) (w : World) (r : CellRef) : World → Prop where
  | access {s : Symbol} (head : (w.cell r).car = .sym s)
      (kind : s.isMember = true ∨ s.isKeyword = true) : Unpacks site w r w
  | call {w₁ : World} {f : Value}
      (head : ∀ s, (w.cell r).car = .sym s → s.isMember = false ∧ s.isKeyword = false)
      (function : site.HasValue w (w.cell r).car f w₁) (callable : f.isCallable = true) :
      Unpacks site w r w₁

section
variable {site : Site} {w w₁ w' w₀ : World} {r q : CellRef} {v last : Value}

theorem Walks.mono [Host] {P Q : World → Prop} (h : site.Walks P w v w' last)
    (hPQ : ∀ w, P w → Q w) :
    site.Walks Q w v w' last := by
  induction h with
  | ended hv => exact .ended hv
  | pair value left _ ih => exact .pair value (hPQ _ left) ih

/-- Arguments that end in something else than `nil` are refused when their end is reached. -/
theorem Walks.refused [Host] {P : World → Prop} (h : site.Walks P w v w' last)
    (hlast : last ≠ .nil) :
    Run.ComesTo (fun n => (evaluator n).arguments site n [] v) w
      (.error (.ofFault (.form .improperArguments)) w') := by
  induction h with
  | @ended w v hv =>
    refine Run.comesTo_succ.1 ⟨nofun, 0, fun n _ => ?_⟩
    cases v with
    | cell r => exact absurd rfl (hv r)
    | nil => exact absurd rfl hlast
    | _ => rfl
  | pair value _ _ ih =>
    exact comesTo_arguments_cons value ((comesTo_arguments (ih hlast)).bind_error _)

/-- As long as data is kept, the pairs end as they did at the start. -/
theorem Walks.last_eq [Host] (h : site.Walks w₀.Keeps w v w' last) {last₀ : Value}
    (hr : w₀.EndsIn r last₀) (hv : v = (w₀.cell r).cdr) : last = last₀ := by
  induction h generalizing r with
  | ended hatom =>
    obtain ⟨cells, hspine⟩ := hr.spine_cdr
    rw [← hv] at hspine
    cases hspine with
    | stop => rfl
    | @pair q => exact absurd rfl (hatom q)
  | @pair w w₁ w' q x last value left rest ih =>
    have hq := hr.cdr hv.symm
    exact ih hq (congrArg Cell.cdr (left.cell q hq.exists_pair))

/-- A symbol that is no keyword has a value only if it is bound. -/
theorem HasValue.bound [Host] {s : Symbol} {f : Value} (hs : s.isKeyword = false)
    (h : site.HasValue w (.sym s) f w₁) : w.lookup? site.env s = some f ∧ w₁ = w := by
  obtain ⟨-, k, hk⟩ := h
  have heval : eval (k + 1) false site (.sym s) = (do return .value (← Run.lookup site.env s)) := by
    show (evaluator k).any k false site (.sym s) = _
    rw [Evaluator.any, if_neg (by simp [hs])]
  have hrun : ((evaluator (k + 1)).value site (.sym s)).run w = .ok f w₁ := hk (k + 1) (by omega)
  change (eval (k + 1) false site (.sym s) >>= _).run w = _ at hrun
  rw [heval, Run.lookup, bind_assoc, bind_assoc, Run.run_look_bind] at hrun
  cases hfound : w.lookup? site.env s with
  | none =>
    rw [hfound] at hrun
    cases hrun
  | some v =>
    rw [hfound] at hrun
    cases hrun
    exact ⟨rfl, rfl⟩

variable (hforms : ¬ site.TakesForms w r)
include hforms

theorem transformer?_eq_none {s : Symbol} (hcar : (w.cell r).car = .sym s) :
    w.transformer? site.macros s = none :=
  Option.not_isSome_iff_eq_none.1 fun h => hforms ⟨s, hcar, .inl h⟩

theorem ofName?_eq_none {s : Symbol} (hcar : (w.cell r).car = .sym s) :
    SpecialForm.ofName? s.name = none :=
  Option.not_isSome_iff_eq_none.1 fun h => hforms ⟨s, hcar, .inr h⟩

/-- Where the head has a value, the form is a call of that. -/
theorem comesTo_callHead [Host] {f : Value} {tail : Bool}
    {res : EStateM.Result Stop World (Answer tail)} (hhead : ∀ s, (w.cell r).car = .sym s →
    s.isMember = false ∧ s.isKeyword = false)
    (hf : site.HasValue w (w.cell r).car f w₁)
    (h : Run.ComesTo (fun n => (evaluator n).callHead n tail site r (w.cell r).car f) w₁ res) :
    Run.ComesTo (fun n => (evaluator n).form n tail site r) w res := by
  by_cases hsymbol : ∃ s, (w.cell r).car = .sym s
  · obtain ⟨s, hcar⟩ := hsymbol
    obtain ⟨hmember, hkeyword⟩ := hhead s hcar
    rw [hcar] at hf h
    obtain ⟨hbound, rfl⟩ := hf.bound hkeyword
    have hform (n : Nat) : ((evaluator n).form n tail site r).run w₁ =
        ((evaluator n).callHead n tail site r (.sym s) f).run w₁ := by
      rw [Evaluator.run_namedForm hcar (transformer?_eq_none hforms hcar)
        (ofName?_eq_none hforms hcar),
        if_neg (by simp [hmember]), if_neg (by simp [hkeyword]), Run.lookup, bind_assoc,
        Run.run_look_bind, hbound]
      rfl
    simpa only [Run.ComesTo, hform] using h
  · have hhead (n : Nat) : ((evaluator n).form n tail site r).run w = _ :=
      (evaluator n).run_head (fun s hs => hsymbol ⟨s, hs⟩) n tail
    simpa only [Run.ComesTo, hhead] using Run.ComesTo.bind hf h

/-- If the arguments are refused, so is the form. -/
theorem Unpacks.refused [Host] (h : site.Unpacks w r w₁) {s : Stop} (hargs : Run.ComesTo
      (fun n => (evaluator n).arguments site n [] (w₁.cell r).cdr) w₁ (.error s w')) (tail : Bool) :
    Run.ComesTo (fun n => (evaluator n).form n tail site r) w (.error s w') := by
  cases h with
  | @access k hcar kind =>
    obtain ⟨hs, n, hn⟩ := hargs
    refine ⟨fun w'' h => hs w'' (by cases h; rfl), n, fun m hm => ?_⟩
    dsimp only
    rw [Evaluator.run_namedForm hcar (transformer?_eq_none hforms hcar)
      (ofName?_eq_none hforms hcar)]
    split
    · rw [EStateM.run_bind, Evaluator.memberForm, Run.run_look_bind, EStateM.run_bind, hn m hm]
    · rw [if_pos (kind.resolve_left ‹_›), Run.run_look_bind, EStateM.run_bind, hn m hm]
  | @call _ f head function callable =>
    refine comesTo_callHead hforms head function ?_
    simpa only [Run.ComesTo, Evaluator.run_callHead _ callable] using hargs.bind_error _

end

end Site

/-! ## All forms -/

/-- What becomes of a form whose pairs end in something else than `nil`.

It has no value if nothing that is called gives data new contents, unless its head takes the
arguments as they stand and no pair is behind it. With nesting unbounded, arguments that are taken
as they stand are refused before anything else is done. Arguments that are evaluated are refused
when their values have been found and the pairs end in something else than `nil`, which they do if
data has been kept; a head whose value is no function is refused as well. Each of these is an error
of the language at the place of the form.

Where no pair is behind the head, a special form has no arguments: it has a value then,
leaves or fails. And a macro gets the elements of what is behind the head; if that has
none, the host fails. -/
theorem improper_forms [Host] {site : Site} {w : World} {r : CellRef} {last : Value}
    (hr : w.EndsIn r last) : (∀ n, (site.TakesForms w r → ∃ q, (w.cell r).cdr = .cell q) →
    CallsNoMutator n site (.cell r) w →
      ∀ v w', (evaluate n site (.cell r)).run w ≠ .ok v w') ∧
    (site.room = .unbounded →
      (site.TakesForms w r → ∀ q, (w.cell r).cdr = .cell q →
        ∀ text, w.readableText .unbounded (.cell q) = .ok text →
        ∀ n tail, (eval (n + 1) tail site (.cell r)).run w =
          .error (.error ⟨.type (.improperList text), (w.cell r).pos⟩) w) ∧
      (¬ site.TakesForms w r → ∀ w₁ w₂ last',
        site.Unpacks w r w₁ → site.Walks (fun _ => True) w₁ (w₁.cell r).cdr w₂ last' →
          last' ≠ .nil →
        ∀ tail, Run.ComesTo (fun n => eval n tail site (.cell r)) w
          (.error (.error ⟨.form .improperArguments, (w.cell r).pos⟩) w₂)) ∧
      (∀ w₁ w₂ last', w.Keeps w₁ → site.Walks w.Keeps w₁ (w₁.cell r).cdr w₂ last' →
        site.Walks (fun _ => True) w₁ (w₁.cell r).cdr w₂ last' ∧ last' ≠ .nil) ∧
      (¬ site.TakesForms w r → ∀ f w₁,
        (∀ s, (w.cell r).car = .sym s → s.isMember = false ∧ s.isKeyword = false) →
        site.HasValue w (w.cell r).car f w₁ → f.isCallable = false →
        ∀ text text', w₁.plain .unbounded (w.cell r).car = .ok text →
        w₁.shown .unbounded f = .ok text' →
        ∀ tail, Run.ComesTo (fun n => eval n tail site (.cell r)) w
          (.error (.error ⟨.form (.notCallable text text'), (w.cell r).pos⟩) w₁)) ∧
      ((∀ q, (w.cell r).cdr ≠ .cell q) → ∀ s, (w.cell r).car = .sym s →
        (∀ f, w.transformer? site.macros s = none → SpecialForm.ofName? s.name = some f →
          ∀ n tail,
            (∀ v, f.valueOfNone? = some v →
              (eval (n + 1) tail site (.cell r)).run w = .ok (.value v) w) ∧
            (f = .leave → (eval (n + 1) tail site (.cell r)).run w = .error (.returned .nil) w) ∧
            (f.valueOfNone? = none → f ≠ .leave → ∃ fault,
              (eval (n + 1) tail site (.cell r)).run w =
                .error (.error ⟨fault, (w.cell r).pos⟩) w)) ∧
        ∀ t, w.transformer? site.macros s = some t → ∀ n tail,
          (w.cursor? (w.cell r).cdr = none → (eval (n + 1) tail site (.cell r)).run w =
            .error (.crash (.notIterable (w.qualifiedTypeName (w.cell r).cdr))) w) ∧
          ∀ items w₁, (Evaluator.macroArguments .unbounded (w.cell r).cdr).run w = .ok items w₁ →
            (eval (n + 1) tail site (.cell r)).run w = Run.placedOutcome (w.cell r).pos
              (((evaluator n).expand site items t >>= eval n tail site).run w₁))) := by
  refine ⟨fun n hforms h => evaluate_endsIn_ne_ok hr hforms h, fun hroom => ⟨?_, ?_, ?_, ?_, ?_⟩⟩
  · exact fun hforms q hq text htext n tail => eval_takesForms hroom hr hforms hq htext n tail
  · exact fun hforms w₁ w₂ last' hunpacks hwalks hlast tail =>
      comesTo_placed hroom (hunpacks.refused hforms (hwalks.refused hlast) tail)
  · intro w₁ w₂ last' hkeeps hwalks
    have hcdr : (w₁.cell r).cdr = (w.cell r).cdr :=
      congrArg Cell.cdr (hkeeps.cell r hr.exists_pair)
    refine ⟨hwalks.mono fun _ _ => trivial, ?_⟩
    rw [hwalks.last_eq hr hcdr]
    exact hr.2
  · intro hforms f w₁ hhead hf hcallable text text' htext htext' tail
    refine comesTo_placed hroom (Site.comesTo_callHead hforms hhead hf ?_)
    refine ⟨nofun, 0, fun n _ => ?_⟩
    dsimp only
    rw [Evaluator.callHead, if_neg (by simp [hcallable]), EStateM.run_bind, Run.plain,
      Run.run_lookOrStop, hroom, htext]
    dsimp only
    rw [EStateM.run_bind, Run.shown, Run.run_lookOrStop, htext']
    rfl
  · intro hcdr s hcar
    refine ⟨fun f ht hf n tail => ?_, fun t ht n tail =>
      ⟨fun hcursor => ?_, fun items w₁ hitems => ?_⟩⟩
    · rw [eval_special_of_atom hroom hcar ht hf hcdr]
      rcases f.run_nil (evaluator n) n tail site w with
        ⟨v, hv, hrun⟩ | ⟨rfl, hrun⟩ | ⟨hnone, hleave, fault, hrun⟩ <;> rw [hrun]
      · refine ⟨fun v' hv' => ?_, fun h => ?_, fun h => ?_⟩
        · cases hv.symm.trans hv'
          rfl
        · rw [h] at hv
          cases hv
        · rw [h] at hv
          cases hv
      · exact ⟨fun v hv => absurd hv (by simp [SpecialForm.valueOfNone?]), fun _ => rfl,
          fun _ h => absurd rfl h⟩
      · refine ⟨fun v hv => ?_, fun h => absurd h hleave, fun _ _ => ⟨fault, rfl⟩⟩
        cases hnone.symm.trans hv
    · exact eval_macroCall_raises hroom hcar ht hcursor n tail
    · exact eval_macro_of_items hroom hcar ht hitems n tail

/-- A world with the forms `(progn . 5)` and `(list 1 . 5)`. -/
def dottedWorld : World :=
  { World.empty with
    cells := #[⟨.sym ⟨"progn"⟩, .int 5, some ⟨1, 1⟩⟩,
      ⟨.sym ⟨"list"⟩, .cell ⟨2⟩, some ⟨2, 1⟩⟩, ⟨.int 1, .int 5, none⟩]
    frames := #[⟨Bindings.ofNames [(⟨"list"⟩, .builtin .list)], none⟩]
    macroTables := #[[]] }

open scoped SampleHost in
/-- The special form has a value, and the call is refused. -/
theorem improper_forms_dotted :
    dottedWorld.EndsIn ⟨0⟩ (.int 5) ∧ dottedWorld.EndsIn ⟨1⟩ (.int 5) ∧
    (∀ n tail, (eval (n + 1) tail addingSite (.cell ⟨0⟩)).run dottedWorld =
      .ok (.value .nil) dottedWorld) ∧
    ∀ tail, Run.ComesTo (fun n => eval n tail addingSite (.cell ⟨1⟩)) dottedWorld
      (.error (.error ⟨.form .improperArguments, some ⟨2, 1⟩⟩) dottedWorld) := by
  have hblock : dottedWorld.EndsIn ⟨0⟩ (.int 5) := ⟨⟨_, rfl⟩, nofun⟩
  have hcall : dottedWorld.EndsIn ⟨1⟩ (.int 5) := ⟨⟨_, rfl⟩, nofun⟩
  have hroom : addingSite.room = .unbounded := rfl
  obtain ⟨-, -, -, -, hnone⟩ := (improper_forms hblock).2 hroom
  obtain ⟨-, hwalk, -⟩ := (improper_forms hcall).2 hroom
  have hforms : ¬ addingSite.TakesForms dottedWorld ⟨1⟩ := by
    rintro ⟨s, hcar, hkind⟩
    cases hcar
    exact absurd hkind (by decide +kernel)
  have hlist : addingSite.Unpacks dottedWorld ⟨1⟩ dottedWorld := by
    refine .call (fun s hs => ?_) (Site.value_of_bound rfl rfl) rfl
    cases hs
    decide +kernel
  exact ⟨hblock, hcall, fun n tail => ((hnone nofun _ rfl).1 .progn rfl rfl n tail).1 .nil rfl,
    hwalk hforms _ _ (.int 5) hlist (.pair (.atom (fun _ => rfl) _) trivial (.ended nofun)) nofun⟩

end TemplateLisp
