import TemplateLisp.Proofs.InvariantCalls
import TemplateLisp.Proofs.Watches

/-!
# Invariants through evaluations

Two watches that agree make evaluations that agree (`Invariant.Watches.evaluate`), and so an
evaluation under a watch that agrees with itself keeps the invariant. There is one lemma for each
way in which an evaluation goes on with parts of a form, under the assumption that the evaluators
one level down agree, and an induction on the fuel at the end.

A watch that agrees with itself has to stop calls of functions that give an object new contents
unless the rules allow them. Nothing else is asked of what a program does.
-/

namespace TemplateLisp.Invariant

section
variable (I : Invariant)

/-- A call that is handed back is one of a closure in a frame, both of which may go into objects. -/
def ValidAnswer {tail : Bool} (w : World) : Answer tail → Prop
  | .value v => I.Valid w v
  | .call r env => I.Valid w (.closure r) ∧ I.Valid w (.env env)

/-- An evaluation may take place there. -/
structure ValidSite (w : World) (site : Site) : Prop where
  frame : I.Valid w (.env site.env)
  tables : I.tables site.macros site.ambient

/-- Everything that two evaluators do with values and frames that exist agrees. -/
structure Evaluators (e e' : Evaluator) : Prop where
  eval : ∀ {tail : Bool} {site : Site} {v : Value} {w : World}, I.ValidSite w site →
    I.Valid w v → I.Agree w I.ValidAnswer (e.eval tail site v) (e'.eval tail site v)
  call : ∀ {site : Site} {f : Value} {args : List Value} {w : World}, I.ValidSite w site →
    I.Valid w f → I.ValidAll w args → I.Agree w I.Valid (e.call site f args) (e'.call site f args)

end

section
variable {I : Invariant} {w : World}

theorem ValidSite.mono {w' : World} {site : Site} (h : I.ValidSite w site) (hw : w.Grows w') :
    I.ValidSite w' site := ⟨h.frame.mono hw, h.tables⟩

theorem ValidSite.inside {site : Site} {env : FrameRef} (henv : I.Valid w (.env env))
    (htables : I.tables site.macros site.ambient) : I.ValidSite w { site with env := env } :=
  ⟨henv, htables⟩

theorem Good.transformer? (h : I.Good w) {table : MacroTableRef} {s : Symbol} {r : ClosureRef}
    (ht : w.transformer? table s = some (.closure r)) : I.Valid w (.closure r) := by
  obtain ⟨front, behind, htable, -⟩ := List.lookup_eq_some_iff.1 ht
  exact h.held (.macros table) (fun _ => id) _
    (World.mem_macroClosures.2 ⟨(s, .closure r), by simp [htable], r, rfl, rfl⟩)

theorem Good.operand? (h : I.Good w) {name : String} {v x : Value} (hv : I.Valid w v)
    (hx : w.operand? name v = some x) : I.Valid w x := by
  unfold World.operand? at hx
  split at hx
  · split at hx
    · rename_i hcdr
      split at hx
      · cases hx
        exact h.car (hcdr ▸ h.cdr hv)
      · cases hx
    · cases hx
  · cases hx

end

namespace Agree

variable {I : Invariant} {w : World}

theorem placed {α : Type} {P : World → α → Prop} (pos : Option Pos) {x y : Run α}
    (hx : I.Agree w P x y) : I.Agree w P (Run.placed pos x) (Run.placed pos y) := by
  refine tryCatch hx fun s w' _ => ?_
  split
  · exact throw _
  · exact throw _

theorem deeper {site : Site} (hsite : I.ValidSite w site) : I.Keeps w I.ValidSite site.deeper := by
  unfold Site.deeper
  split
  · exact pure ⟨hsite.frame, hsite.tables⟩
  · exact throw _

theorem answer {tail : Bool} {x y : Run Value} (hx : I.Agree w I.Valid x y) :
    I.Agree w I.ValidAnswer (SpecialForm.answer x : Run (Answer tail)) (SpecialForm.answer y) :=
  bind hx fun _ _ _ hv => pure hv

/-! ## Macro calls -/

theorem symbol {s : Symbol} : I.Valid w (.sym s) := fun _ => trivial

theorem block {body : List Value} (hbody : I.ValidAll w body) :
    I.Keeps w I.Valid (BuiltinMacro.block body) := list (.cons symbol hbody)

theorem stepForm (operator : String) {place delta : Value} (hplace : I.Valid w place)
    (hdelta : I.Valid w delta) : I.Keeps w I.Valid (do
      Run.list [.sym ⟨"setq"⟩, place, ← Run.list [.sym ⟨operator⟩, place, delta]]) := by
  refine bind (list (.cons symbol (.cons hplace (.cons hdelta validAll_nil))))
    fun sum w' hw hsum => ?_
  exact list (.cons symbol (.cons (hplace.mono hw) (.cons hsum validAll_nil)))

theorem step (m : BuiltinMacro) (room : Room) (operator : String) {args : List Value}
    (hargs : I.ValidAll w args) : I.Keeps w I.Valid (m.step room operator args) := by
  unfold BuiltinMacro.step
  dsimp only
  split
  · split
    · exact stepForm operator symbol fun _ => trivial
    · exact failAfter (shown room _) _
  · split
    · exact stepForm operator symbol hargs.tail.head
    · exact failAfter (shown room _) _
  · exact fail _

theorem expandBuiltin (m : BuiltinMacro) (room : Room) {args : List Value}
    (hargs : I.ValidAll w args) : I.Keeps w I.Valid (m.expand room args) := by
  cases m with
  | whenTrue =>
    cases args with
    | nil => exact fail _
    | cons test body =>
      refine bind (block hargs.tail) fun b w' hw hb => ?_
      exact list (.cons symbol (.cons (hargs.head.mono hw) (.cons hb validAll_nil)))
  | unlessTrue =>
    cases args with
    | nil => exact fail _
    | cons test body =>
      refine bind (list (.cons symbol (.cons hargs.head validAll_nil))) fun t w₁ h₁ ht => ?_
      refine bind (block (hargs.tail.mono h₁)) fun b w₂ h₂ hb => ?_
      exact list (.cons symbol (.cons (ht.mono h₂) (.cons hb validAll_nil)))
  | incf => exact step _ room _ hargs
  | decf => exact step _ room _ hargs

theorem macroArguments [Host] [I.AllowsHost] (room : Room) {v : Value} (hv : I.Valid w v) :
    I.Keeps w I.ValidAll (Evaluator.macroArguments room v) := by
  unfold Evaluator.macroArguments
  split
  · rename_i r
    refine look fun hw => pure fun x hx => ?_
    obtain ⟨e, he, rfl⟩ := List.mem_map.1 hx
    exact (hw.entries hv e he).1
  · refine look fun hw => ?_
    split
    · exact toList room (hw.cursor? hv ‹_›)
    · exact look fun _ => crash _

/-! ## Parts of evaluations -/

section
variable {e e' : Evaluator} (he : I.Evaluators e e') {site : Site} (hsite : I.ValidSite w site)
include he hsite

theorem value {v : Value} (hv : I.Valid w v) :
    I.Agree w I.Valid (e.value site v) (e'.value site v) := by
  refine bind (he.eval hsite hv) fun a w' _ ha => pure ?_
  cases a with
  | value v => exact ha

theorem discardValue {v : Value} (hv : I.Valid w v) :
    I.Agree w Anything (discard (e.value site v)) (discard (e'.value site v)) :=
  map _ (value he hsite hv) fun _ _ _ _ => trivial

theorem each {vs : List Value} (hvs : I.ValidAll w vs) :
    I.Agree w Anything (e.each site vs) (e'.each site vs) := by
  induction vs generalizing w with
  | nil => exact pure trivial
  | cons v vs ih =>
    refine bind (discardValue he hsite hvs.head) fun _ w' hw _ => ?_
    exact ih (hsite.mono hw) (hvs.tail.mono hw)

theorem sequence (tail : Bool) {vs : List Value} (hvs : I.ValidAll w vs) :
    I.Agree w I.ValidAnswer (e.sequence tail site vs) (e'.sequence tail site vs) := by
  induction vs generalizing w with
  | nil => exact pure (fun _ => trivial)
  | cons v vs ih =>
    cases vs with
    | nil => exact he.eval hsite hvs.head
    | cons u vs =>
      refine bind (discardValue he hsite hvs.head) fun _ w' hw _ => ?_
      exact ih (hsite.mono hw) (hvs.tail.mono hw)

theorem arguments (n : Nat) {found : List Value} {v : Value} (hfound : I.ValidAll w found)
    (hv : I.Valid w v) :
    I.Agree w I.ValidAll (e.arguments site n found v) (e'.arguments site n found v) := by
  induction n generalizing found v w with
  | zero => exact throw _
  | succ n ih =>
    cases v with
    | cell r =>
      refine look fun hw => bind (value he hsite (hw.car hv)) fun x w' hgrows hx => ?_
      refine look fun hw' => ih (hsite.mono hgrows) ?_ (hw'.cdr (hv.mono hgrows))
      exact .cons hx (hfound.mono hgrows)
    | nil => exact pure hfound.reverse
    | _ => exact fail _

omit hsite in
theorem complete {site : Site} (htables : I.tables site.macros site.ambient) (n : Nat)
    {a : Answer true} (ha : I.ValidAnswer w a) :
    I.Agree w I.Valid (e.complete site n a) (e'.complete site n a) := by
  induction n generalizing a w with
  | zero =>
    cases a with
    | value v => exact pure ha
    | call r env => exact throw _
  | succ n ih =>
    cases a with
    | value v => exact pure ha
    | call r env =>
      refine look fun hw => ?_
      exact bind (he.eval (.inside ha.2 htables) (hw.closure ha.1).2.1) fun a w' _ ha => ih ha

omit hsite in
theorem expand {site : Site} (htables : I.tables site.macros site.ambient) {args : List Value}
    (hargs : I.ValidAll w args) {t : Transformer}
    (ht : ∀ r, t = .closure r → I.Valid w (.closure r)) :
    I.Agree w I.Valid (e.expand site args t) (e'.expand site args t) := by
  cases t with
  | builtin m => exact expandBuiltin m site.room hargs
  | closure r =>
    refine look fun hw => ?_
    obtain ⟨_, hbody, henv⟩ := hw.closure (ht r rfl)
    refine bind (bindArguments _ hargs henv _) fun env w' hgrows henv => ?_
    have hinner : I.ValidSite w' { site with env } := .inside henv htables
    exact value he hinner (hbody.mono hgrows)

end

theorem mapVectorAt {α : Type} {P : World → α → Prop} (hP : World.Persistent P)
    {f g : Value → Run α} (hf : ∀ v w', w.Grows w' → I.Valid w' v → I.Agree w' P (f v) (g v))
    {r : VectorRef} (hr : I.Valid w (.vector r)) (n index : Nat) {found : List α}
    (hfound : ∀ a ∈ found, P w a) :
    I.Agree w (fun w as => ∀ a ∈ as, P w a) (Run.mapVectorAt f r n index found)
      (Run.mapVectorAt g r n index found) := by
  induction n generalizing index found w with
  | zero => exact throw _
  | succ n ih =>
    refine look fun hw => ?_
    split
    · exact pure fun a ha => hfound a (List.mem_reverse.1 ha)
    · rename_i v hv
      have hv := hw.vector hr v (List.mem_of_getElem? hv)
      refine bind (hf v w (.refl w) hv) fun a w' hgrows ha => ?_
      refine ih (fun v w'' hw'' => hf v w'' (hgrows.trans hw'')) (hr.mono hgrows) _ fun b hb => ?_
      rcases List.mem_cons.1 hb with rfl | hb
      · exact ha
      · exact hP hgrows (hfound b hb)

theorem mapEntriesAt {f g : Value → Run Value}
    (hf : ∀ v w', w.Grows w' → I.Valid w' v → I.Agree w' I.Valid (f v) (g v)) {r : MapRef}
    (hr : I.Valid w (.map r)) (size left : Nat) {found : List (Value × Value)}
    (hfound : I.ValidEntries w found) :
    I.Agree w I.ValidEntries (Run.mapEntriesAt f r size left found)
      (Run.mapEntriesAt g r size left found) := by
  have hreverse : I.ValidEntries w found.reverse := fun e he => hfound e (List.mem_reverse.1 he)
  induction left generalizing found w with
  | zero =>
    unfold Run.mapEntriesAt
    exact look fun _ => ite (fun _ => crash _) fun _ => pure hreverse
  | succ left ih =>
    unfold Run.mapEntriesAt
    refine look fun hw => ite (fun _ => crash _) fun _ => ?_
    dsimp only
    split
    · exact pure hreverse
    · rename_i k v hentry
      have hkv := hw.entries hr _ (List.mem_of_getElem? hentry)
      refine bind (hf v w (.refl w) hkv.2) fun x w' hgrows hx => ?_
      have hnew : I.ValidEntries w' ((k, x) :: found) := by
        intro e he
        rcases List.mem_cons.1 he with rfl | he
        · exact ⟨hkv.1.mono hgrows, hx⟩
        · exact ⟨(hfound e he).1.mono hgrows, (hfound e he).2.mono hgrows⟩
      exact ih (fun v w'' hw'' => hf v w'' (hgrows.trans hw'')) (hr.mono hgrows) hnew
        fun e he => hnew e (List.mem_reverse.1 he)

theorem newEntries {f g : Value → Run Value}
    (hf : ∀ v w', w.Grows w' → I.Valid w' v → I.Agree w' I.Valid (f v) (g v)) {r : MapRef}
    (hr : I.Valid w (.map r)) : I.Agree w I.Valid (Run.mapEntries f r) (Run.mapEntries g r) :=
  look fun _ => bind (mapEntriesAt hf hr _ _ fun _ he => nomatch he) fun _ _ _ hes => newMap hes

/-! ## Templates -/

theorem spliced (room : Room) {v : Value} (hv : I.Valid w v) :
    I.Keeps w I.ValidAll (Quasiquote.spliced room v) := by
  cases v with
  | nil => exact pure validAll_nil
  | cell r => exact properItems room hv
  | vector r => exact looked fun hw => hw.vector hv
  | tuple r => exact looked fun hw => hw.tuple r
  | _ => exact failAfter (typeName _) _

section
variable {e e' : Evaluator} (he : I.Evaluators e e') {site : Site} (hsite : I.ValidSite w site)
include he hsite

section
variable {copy copy' : Value → Run Value}
  (hcopy : ∀ v w', w.Grows w' → I.Valid w' v → I.Agree w' I.Valid (copy v) (copy' v))
include hcopy

theorem element (nesting : Nat) {v : Value} (hv : I.Valid w v) :
    I.Agree w I.ValidAll (Quasiquote.element e site nesting copy v)
      (Quasiquote.element e' site nesting copy' v) := by
  refine look fun hw => ?_
  split
  · rename_i x hx
    exact bind (value he hsite (hw.operand? hv hx)) fun v _ _ hv => spliced site.room hv
  · exact bind (hcopy v w (.refl w) hv) fun _ _ _ hx => pure (.cons hx validAll_nil)

theorem elements (nesting n : Nat) {r : VectorRef} (hr : I.Valid w (.vector r)) :
    I.Agree w I.ValidAll (Quasiquote.elements e site nesting copy n r)
      (Quasiquote.elements e' site nesting copy' n r) := by
  refine bind (mapVectorAt (P := I.ValidAll) (fun _ _ _ hw h => ValidAll.mono h hw)
    (fun v w' hw hv => ?_) hr n 0 fun _ h => nomatch h) fun vss _ _ hvss => pure fun x hx => ?_
  · exact element he (hsite.mono hw) (fun v w'' hw'' => hcopy v w'' (hw.trans hw'')) nesting hv
  · obtain ⟨vs, hvs, hxvs⟩ := List.mem_flatten.1 hx
    exact hvss vs hvs x hxvs

theorem templateSpine (nesting : Nat) (first : CellRef) (n : Nat) {found : List Value} {v : Value}
    (hfound : I.ValidAll w found) (hv : I.Valid w v) :
    I.Agree w I.Valid (Quasiquote.spine e site nesting copy first n found v)
      (Quasiquote.spine e' site nesting copy' first n found v) := by
  have hdotted : ∀ {v : Value}, I.Valid w v → I.Agree w I.Valid
      (copy v >>= fun x => Run.listWithTail found.reverse x)
      (copy' v >>= fun x => Run.listWithTail found.reverse x) := fun hv =>
    bind (hcopy _ w (.refl w) hv) fun _ _ hw hx => listWithTail (hfound.reverse.mono hw) hx
  induction n generalizing found v w with
  | zero => exact throw _
  | succ n ih =>
    cases v with
    | cell r =>
      refine look fun _ => ite (fun _ => hdotted hv) fun _ => look fun hw => ?_
      refine bind (element he hsite hcopy nesting (hw.car hv)) fun new w' hgrows hnew => ?_
      refine look fun hw' => ?_
      have hcopy' := fun v w'' (hw'' : w'.Grows w'') => hcopy v w'' (hgrows.trans hw'')
      have hfound' := hnew.reverse.append (hfound.mono hgrows)
      refine ih (hsite.mono hgrows) hcopy' hfound' (hw'.cdr (hv.mono hgrows)) fun hv => ?_
      exact bind (hcopy' _ w' (.refl w') hv) fun _ _ hw hx =>
        listWithTail (hfound'.reverse.mono hw) hx
    | nil => exact list hfound.reverse
    | _ => exact hdotted hv

end

theorem template (n nesting : Nat) {v : Value} (hv : I.Valid w v) :
    I.Agree w I.Valid (Quasiquote.copy e n site nesting v)
      (Quasiquote.copy e' n site nesting v) := by
  induction n generalizing site nesting v w with
  | zero => exact throw _
  | succ n ih =>
    have hmarked : ∀ name {inner d x w'}, I.ValidSite w' inner → I.Valid w' x →
        I.Agree w' I.Valid (Quasiquote.copy e n inner d x >>= fun y => Quasiquote.marked name y)
          (Quasiquote.copy e' n inner d x >>= fun y => Quasiquote.marked name y) :=
      fun name {_ d _ _} hinner hx => bind (ih hinner d hx) fun _ _ _ hy =>
        list (.cons symbol (.cons hy validAll_nil))
    cases v with
    | cell r =>
      refine bind (deeper hsite) fun inner w' hgrows hinner => look fun hw => ?_
      replace hv := hv.mono hgrows
      cases hhole : w'.operand? "unquote" (.cell r) with
      | some x =>
        cases nesting with
        | zero => exact value he hinner (hw.operand? hv hhole)
        | succ d => exact hmarked _ hinner (hw.operand? hv hhole)
      | none =>
        refine look fun hw => ?_
        cases hsplice : w'.operand? "unquote-splicing" (.cell r) with
        | some x =>
          cases nesting with
          | zero => exact fail _
          | succ d => exact hmarked _ hinner (hw.operand? hv hsplice)
        | none =>
          refine look fun hw => ?_
          cases hnested : w'.operand? "quasiquote" (.cell r) with
          | some x => exact hmarked _ hinner (hw.operand? hv hnested)
          | none =>
            exact templateSpine he hinner (fun v w'' hw'' hv => ih (hinner.mono hw'') nesting hv)
              nesting r n validAll_nil hv
    | vector r =>
      refine bind (deeper hsite) fun inner w' hgrows hinner => ?_
      exact bind
        (elements he hinner (fun v w'' hw'' hv => ih (hinner.mono hw'') nesting hv) nesting n
        (hv.mono hgrows)) fun _ _ _ hvs => vector hvs
    | map r =>
      refine bind (deeper hsite) fun inner w' hgrows hinner => ?_
      exact newEntries (fun v w'' hw'' hv => ih (hinner.mono hw'') nesting hv) (hv.mono hgrows)
    | _ => exact pure hv

end

/-! ## Loops -/

variable (I) in
/-- The forms in the head of a loop exist. -/
def ValidLoop (w : World) (spec : LoopSpec) : Prop :=
  I.Valid w spec.source ∧ ∀ v ∈ spec.result, I.Valid w v

theorem ValidLoop.mono {w' : World} {spec : LoopSpec} (h : ValidLoop I w spec) (hw : w.Grows w') :
    ValidLoop I w' spec := ⟨h.1.mono hw, fun v hv => (h.2 v hv).mono hw⟩

theorem loopSpec (room : Room) (form : String) {v : Value} (hv : I.Valid w v) :
    I.Keeps w (ValidLoop I) (LoopSpec.ofValue room form v) := by
  cases v with
  | cell r =>
    refine bind (properItems room hv) fun items w₁ h₁ hitems => ?_
    dsimp only
    split
    all_goals
      refine bind (P := fun w' (parts : Value × Value × Option Value) =>
        I.Valid w' parts.2.1 ∧ ∀ v ∈ parts.2.2, I.Valid w' v) ?_ fun parts w₂ _ hparts => ?_
      rotate_left
      · obtain ⟨variableForm, source, result⟩ := parts
        dsimp only
        split
        · exact pure hparts
        · exact failAfter (shown room _) _
    · exact pure ⟨hitems.tail.head, fun v hv => nomatch hv⟩
    · exact pure ⟨hitems.tail.head, fun v hv => Option.mem_some.1 hv ▸ hitems.tail.tail.head⟩
    · exact fail _
  | _ => exact fail _

section
variable {e e' : Evaluator} (he : I.Evaluators e e') {site : Site} (hsite : I.ValidSite w site)
include he hsite

theorem turn (name : Symbol) {body : List Value} (hbody : I.ValidAll w body) {v : Value}
    (hv : I.Valid w v) :
    I.Agree w Anything (e.turn site name body v) (e'.turn site name body v) := by
  have hvars : I.ValidEntries w [(.sym name, v)] := by
    intro e he
    cases List.mem_singleton.1 he
    exact ⟨symbol, hv⟩
  refine bind (frame hvars hsite.frame) fun env w' hw henv => ?_
  have hinner : I.ValidSite w' { site with env } := .inside henv hsite.tables
  exact each he hinner (hbody.mono hw)

theorem turns [Host] [I.AllowsHost] (name : Symbol) {body : List Value}
    (hbody : I.ValidAll w body) (n : Nat) {c : Cursor} (hc : I.ValidCursor w c) :
    I.Agree w Anything (e.turns site name body n c) (e'.turns site name body n c) := by
  induction n generalizing c w with
  | zero => exact throw _
  | succ n ih =>
    refine bind (next site.room hc) fun found w₁ h₁ hfound => ?_
    match found, hfound with
    | none, _ => exact pure trivial
    | some (v, c), hfound =>
      obtain ⟨hv, hc⟩ := hfound (v, c) rfl
      refine bind (turn he (hsite.mono h₁) name (hbody.mono h₁) hv) fun _ w₂ h₂ _ => ?_
      exact ih (hsite.mono (h₁.trans h₂)) (hbody.mono (h₁.trans h₂)) (hc.mono h₂)

theorem countedTurns (name : Symbol) {body : List Value} (hbody : I.ValidAll w body)
    (left i : Nat) :
    I.Agree w Anything (e.countedTurns site name body left i)
      (e'.countedTurns site name body left i) := by
  induction left generalizing i w with
  | zero => exact pure trivial
  | succ left ih =>
    refine bind (turn he hsite name hbody fun _ => trivial) fun _ w' hw _ => ?_
    exact ih (hsite.mono hw) (hbody.mono hw) (i + 1)

theorem loopResult {spec : LoopSpec} (hspec : ValidLoop I w spec) :
    I.Agree w I.Valid (e.loopResult site spec) (e'.loopResult site spec) := by
  unfold Evaluator.loopResult
  split
  · exact atom fun _ => trivial
  · exact value he hsite (hspec.2 _ ‹_›)

theorem sequenceLoop [Host] [I.AllowsHost] (n : Nat) (form : String) (listsOnly : Bool)
    {specForm : Value} (hspecForm : I.Valid w specForm) {body : List Value}
    (hbody : I.ValidAll w body) :
    I.Agree w I.Valid (e.sequenceLoop n site form listsOnly specForm body)
      (e'.sequenceLoop n site form listsOnly specForm body) := by
  refine bind (loopSpec site.room form hspecForm) fun spec w₁ h₁ hspec => ?_
  refine bind (value he (hsite.mono h₁) hspec.1) fun source w₂ h₂ hsource => ?_
  have hrest : ∀ w₃, w₂.Grows w₃ → I.Agree w₃ I.Valid (do
      e.turns site spec.variableName body n (← Run.cursor form 1 source)
      e.loopResult site spec) (do
      e'.turns site spec.variableName body n (← Run.cursor form 1 source)
      e'.loopResult site spec) := by
    intro w₃ h₃
    refine bind (cursor form 1 (hsource.mono h₃)) fun c w₄ h₄ hc => ?_
    have h₄ := (h₁.trans h₂).trans (h₃.trans h₄)
    refine bind (turns he (hsite.mono h₄) _ (hbody.mono h₄) n hc) fun _ w₅ h₅ _ => ?_
    exact loopResult he (hsite.mono (h₄.trans h₅))
      (hspec.mono (h₂.trans (h₃.trans (‹w₃.Grows w₄›.trans h₅))))
  refine ite (fun _ => ?_) fun _ => hrest w₂ (.refl w₂)
  exact bind (typeName source) fun _ w₃ h₃ _ => bind (P := Anything) (fail _) fun _ w₄ h₄ _ =>
    hrest w₄ (h₃.trans h₄)

theorem countLoop {specForm : Value} (hspecForm : I.Valid w specForm) {body : List Value}
    (hbody : I.ValidAll w body) :
    I.Agree w I.Valid (e.countLoop site specForm body) (e'.countLoop site specForm body) := by
  refine bind (loopSpec site.room "dotimes" hspecForm) fun spec w₁ h₁ hspec => ?_
  refine bind (value he (hsite.mono h₁) hspec.1) fun count w₂ h₂ _ => ?_
  split
  · refine bind (countedTurns he (hsite.mono (h₁.trans h₂)) _ (hbody.mono (h₁.trans h₂)) _ 0)
      fun _ w₃ h₃ _ => ?_
    exact loopResult he (hsite.mono ((h₁.trans h₂).trans h₃)) (hspec.mono (h₂.trans h₃))
  · exact failAfter (typeName _) _

theorem whileLoop {test : Value} (htest : I.Valid w test) {body : List Value}
    (hbody : I.ValidAll w body) (n : Nat) :
    I.Agree w Anything (e.whileLoop site test body n) (e'.whileLoop site test body n) := by
  induction n generalizing w with
  | zero => exact throw _
  | succ n ih =>
    refine bind (value he hsite htest) fun _ w₁ h₁ _ => ite (fun _ => ?_) fun _ => pure trivial
    refine bind (each he (hsite.mono h₁) (hbody.mono h₁)) fun _ w₂ h₂ _ => ?_
    exact ih (hsite.mono (h₁.trans h₂)) (htest.mono (h₁.trans h₂)) (hbody.mono (h₁.trans h₂))

end

/-! ## Special forms -/

theorem newClosure {site : Site} (hsite : I.ValidSite w site) {params : Value}
    (hparams : I.Valid w params) {forms : List Value} (hforms : I.ValidAll w forms)
    (name : Option String) :
    I.Keeps w (fun w r => I.Valid w (.closure r)) (SpecialForm.closure site params forms name) := by
  have hbody : I.Keeps w I.Valid (SpecialForm.body forms) := by
    match forms, hforms with
    | [], _ => exact atom fun _ => trivial
    | [_], hforms => exact pure hforms.head
    | _ :: _ :: _, hforms => exact list (.cons symbol hforms)
  refine bind hbody fun body w₁ h₁ hbody => ?_
  refine bind (parameterList site.room (hparams.mono h₁)) fun formals w₂ h₂ _ => ?_
  exact of_good fun hw => make (.single (.closure (hparams.mono (h₁.trans h₂)) (hbody.mono h₂)
    (hsite.frame.mono (h₁.trans h₂)))) (hw.valid_addClosure _)

theorem defineFunction {site : Site} (hsite : I.ValidSite w site) {args : List Value}
    (hargs : I.ValidAll w args) : I.Keeps w I.Valid (SpecialForm.defineFunction site args) := by
  unfold SpecialForm.defineFunction
  split
  · split
    · refine bind (newClosure hsite hargs.tail.head hargs.tail.tail _) fun r w₁ h₁ hr => ?_
      exact bind (assign (hsite.frame.mono h₁) _ hr) fun _ _ hw _ => pure (hr.mono hw)
    · exact failAfter (shown site.room _) _
  · exact fail _

theorem defineMacro {site : Site} (hsite : I.ValidSite w site) {args : List Value}
    (hargs : I.ValidAll w args) : I.Keeps w I.Valid (SpecialForm.defineMacro site args) := by
  unfold SpecialForm.defineMacro
  split
  · split
    · refine bind (newClosure hsite hargs.tail.head hargs.tail.tail _) fun r w₁ h₁ hr => ?_
      exact bind (modify fun _ => .single (.defineMacro hr)) fun _ _ _ _ => pure symbol
    · exact failAfter (shown site.room _) _
  · exact fail _

theorem assignPairs {e e' : Evaluator} (he : I.Evaluators e e') {site : Site} {w : World}
    (hsite : I.ValidSite w site) {last : Value} (hlast : I.Valid w last) {vs : List Value}
    (hvs : I.ValidAll w vs) :
    I.Agree w I.Valid (SpecialForm.assignPairs e site last vs)
      (SpecialForm.assignPairs e' site last vs) := by
  unfold SpecialForm.assignPairs
  split
  · refine ite (fun _ => failAfter (shown site.room _) _) fun _ => ?_
    refine bind (value he hsite hvs.tail.head) fun v w₁ h₁ hv => ?_
    refine bind (assign (hsite.frame.mono h₁) _ hv) fun _ w₂ h₂ _ => ?_
    exact assignPairs he (hsite.mono (h₁.trans h₂)) (hv.mono h₂) (hvs.tail.tail.mono (h₁.trans h₂))
  · exact failAfter (shown site.room _) _
  · exact pure hlast
termination_by vs.length

section
variable {e e' : Evaluator} (he : I.Evaluators e e') {site : Site} (hsite : I.ValidSite w site)
include he hsite

theorem bindOne {binding : Value} (hbinding : I.Valid w binding) :
    I.Agree w Anything (SpecialForm.bindOne e site binding)
      (SpecialForm.bindOne e' site binding) := by
  unfold SpecialForm.bindOne
  split
  · exact define hsite.frame _ valid_nil
  · refine look fun _ => ?_
    split
    · refine bind (properItems site.room hbinding) fun items w₁ h₁ hitems => ?_
      split
      · exact define (hsite.frame.mono h₁) _ valid_nil
      · exact bind (value he (hsite.mono h₁) hitems.tail.head) fun _ w₂ h₂ hv =>
          define (hsite.frame.mono (h₁.trans h₂)) _ hv
      · exact failAfter (shown site.room _) _
    · exact failAfter (shown site.room _) _
  · exact failAfter (shown site.room _) _

theorem bindAll [Host] [I.AllowsHost] (n : Nat) {c : Cursor} (hc : I.ValidCursor w c) :
    I.Agree w Anything (SpecialForm.bindAll e site n c) (SpecialForm.bindAll e' site n c) := by
  induction n generalizing c w with
  | zero => exact throw _
  | succ n ih =>
    refine bind (next site.room hc) fun found w₁ h₁ hfound => ?_
    match found, hfound with
    | none, _ => exact pure trivial
    | some (binding, c), hfound =>
      obtain ⟨hbinding, hc⟩ := hfound (binding, c) rfl
      refine bind (bindOne he (hsite.mono h₁) hbinding) fun _ w₂ h₂ _ => ?_
      exact ih (hsite.mono (h₁.trans h₂)) (hc.mono h₂)

theorem bindLocals [Host] [I.AllowsHost] (n : Nat) (tail : Bool) {args : List Value}
    (hargs : I.ValidAll w args) :
    I.Agree w I.ValidAnswer (SpecialForm.bindLocals e n tail site args)
      (SpecialForm.bindLocals e' n tail site args) := by
  cases args with
  | nil => exact fail _
  | cons bindings forms =>
    refine ite (fun _ => ?_) fun _ => failAfter (shown _ _) _
    refine bind (frame validEntries_nil hsite.frame) fun env w₁ h₁ henv => ?_
    have hinner : I.ValidSite w₁ { site with env := env } := .inside henv hsite.tables
    refine bind (cursor _ _ (hargs.head.mono h₁)) fun c w₂ h₂ hc => ?_
    refine bind (bindAll he (hinner.mono h₂) n hc) fun _ w₃ h₃ _ => ?_
    exact sequence he (hinner.mono (h₂.trans h₃)) tail (hargs.tail.mono (h₁.trans (h₂.trans h₃)))

theorem branch (tail : Bool) {args : List Value} (hargs : I.ValidAll w args) :
    I.Agree w I.ValidAnswer (SpecialForm.branch e tail site args)
      (SpecialForm.branch e' tail site args) := by
  unfold SpecialForm.branch
  split
  · refine bind (value he hsite hargs.head) fun _ w' hw _ => ite (fun _ => ?_) fun _ => ?_
    · exact he.eval (hsite.mono hw) (hargs.tail.head.mono hw)
    · exact pure fun _ => trivial
  · refine bind (value he hsite hargs.head) fun _ w' hw _ => ite (fun _ => ?_) fun _ => ?_
    · exact he.eval (hsite.mono hw) (hargs.tail.head.mono hw)
    · exact he.eval (hsite.mono hw) (hargs.tail.tail.head.mono hw)
  · exact fail _

theorem clauses (tail : Bool) {args : List Value} (hargs : I.ValidAll w args) :
    I.Agree w I.ValidAnswer (SpecialForm.clauses e tail site args)
      (SpecialForm.clauses e' tail site args) := by
  induction args generalizing w with
  | nil => exact pure fun _ => trivial
  | cons clause rest ih =>
    cases clause with
    | cell r =>
      refine bind (properItems site.room hargs.head) fun items w₁ h₁ hitems => ?_
      cases items with
      | nil => exact ih (hsite.mono h₁) (hargs.tail.mono h₁)
      | cons test forms =>
        refine bind (value he (hsite.mono h₁) hitems.head) fun v w₂ h₂ hv => ?_
        refine ite (fun _ =>
          ih (hsite.mono (h₁.trans h₂)) (hargs.tail.mono (h₁.trans h₂))) fun _ => ?_
        exact ite (fun _ => pure hv) fun _ =>
          sequence he (hsite.mono (h₁.trans h₂)) tail (hitems.tail.mono h₂)
    | _ => exact failAfter (shown site.room _) _

theorem operands (tail stopAt : Bool) {none : Value} (hnone : I.Valid w none) {args : List Value}
    (hargs : I.ValidAll w args) :
    I.Agree w I.ValidAnswer (SpecialForm.operands e tail site stopAt none args)
      (SpecialForm.operands e' tail site stopAt none args) := by
  induction args generalizing w with
  | nil => exact pure hnone
  | cons v vs ih =>
    cases vs with
    | nil => exact he.eval hsite hargs.head
    | cons u vs =>
      refine bind (value he hsite hargs.head) fun x w' hw hx => ite (fun _ => pure hx) fun _ => ?_
      exact ih (hsite.mono hw) (hnone.mono hw) (hargs.tail.mono hw)

theorem loop [Host] [I.AllowsHost] (n : Nat) (form role : String) (listsOnly : Bool)
    {args : List Value} (hargs : I.ValidAll w args) :
    I.Agree w I.Valid (SpecialForm.loop e n site form role listsOnly args)
      (SpecialForm.loop e' n site form role listsOnly args) := by
  cases args with
  | nil => exact fail _
  | cons spec forms => exact sequenceLoop he hsite n form listsOnly hargs.head hargs.tail

theorem special [Host] [I.AllowsHost] (f : SpecialForm) (n : Nat) (tail : Bool) {args : List Value}
    (hargs : I.ValidAll w args) :
    I.Agree w I.ValidAnswer (f.run e n tail site args) (f.run e' n tail site args) := by
  have htrue : I.Valid w (.bool true) := fun _ => trivial
  cases f with
  | setq =>
    exact answer (ite (fun _ => fail _) fun _ => assignPairs he hsite valid_nil hargs)
  | progn => exact sequence he hsite tail hargs
  | definesMacro => exact answer (defineMacro hsite hargs)
  | quote =>
    match args, hargs with
    | [v], hargs => exact pure hargs.head
    | [], _ => exact fail _
    | _ :: _ :: _, _ => exact fail _
  | quasiquote =>
    match args, hargs with
    | [v], hargs => exact answer (template he hsite n 0 hargs.head)
    | [], _ => exact fail _
    | _ :: _ :: _, _ => exact fail _
  | unquote | unquoteSplicing => exact fail _
  | fn =>
    cases args with
    | nil => exact answer (fail _)
    | cons params forms =>
      exact answer (bind (newClosure hsite hargs.head hargs.tail _) fun _ _ _ hr => pure hr)
  | defn => exact answer (defineFunction hsite hargs)
  | bindLocally => exact bindLocals he hsite n tail hargs
  | choose => exact branch he hsite tail hargs
  | cond => exact clauses he hsite tail hargs
  | conjunction => exact operands he hsite tail _ htrue hargs
  | disjunction => exact operands he hsite tail _ valid_nil hargs
  | dolist | doseq => exact answer (loop he hsite n _ _ _ hargs)
  | dotimes =>
    cases args with
    | nil => exact fail _
    | cons spec forms => exact answer (countLoop he hsite hargs.head hargs.tail)
  | loopWhile =>
    cases args with
    | nil => exact fail _
    | cons test forms =>
      exact bind (whileLoop he hsite hargs.head hargs.tail n) fun _ _ _ _ => pure fun _ => trivial
  | leave =>
    match args, hargs with
    | [], _ => exact throw _
    | [v], hargs => exact bind (value he hsite hargs.head) fun _ _ _ _ => throw _
    | _ :: _ :: _, _ => exact fail _

/-! ## Calls -/

omit hsite in
theorem finish (n : Nat) {site : Site} (htables : I.tables site.macros site.ambient)
    {r : ClosureRef} {env : FrameRef} (hr : I.Valid w (.closure r)) (henv : I.Valid w (.env env))
    (tail : Bool) :
    I.Agree w I.ValidAnswer (e.finish n site r env tail) (e'.finish n site r env tail) := by
  cases tail with
  | true => exact pure ⟨hr, henv⟩
  | false => exact bind (complete he htables n ⟨hr, henv⟩) fun _ _ _ hv => pure hv

theorem callersAgree : CallersAgree I w (e.hostCaller site) (e'.hostCaller site) := by
  intro w' hgrows env f args henv hf hargs
  refine bind (deeper (hsite.mono hgrows)) fun inner w'' hw hinner => ?_
  exact he.call (.inside (henv.mono hw) hinner.tables) (hf.mono hw) (hargs.mono hw)

omit hsite in
theorem callClosure (n : Nat) (tail : Bool) {site : Site}
    (htables : I.tables site.macros site.ambient) {r : ClosureRef} (hr : I.Valid w (.closure r))
    {args : List Value} (hargs : I.ValidAll w args) :
    I.Agree w I.ValidAnswer (e.callClosure n tail site r args)
      (e'.callClosure n tail site r args) := by
  refine look fun hw => ?_
  refine bind (bindArguments _ hargs (hw.closure hr).2.2 _) fun env w' hgrows henv => ?_
  exact finish he n htables (hr.mono hgrows) henv tail

section
variable [Host] [I.AllowsHost]

theorem callBuiltin (b : Builtin) (hmutation : b.isMutator = true → I.mutation) {args : List Value}
    (hargs : I.ValidAll w args) :
    I.Agree w I.Valid (e.callBuiltin site b args) (e'.callBuiltin site b args) := by
  refine bind (deeper hsite) fun inner w' hgrows hinner => orHostFault _ ?_
  refine builtin (fun _ _ _ hw hf hargs => ?_) inner.room b hmutation (hargs.mono hgrows)
  exact he.call (hinner.mono hw) hf hargs

theorem apply (n : Nat) (tail : Bool) {f : Value} (hf : I.Valid w f)
    (hmutation : f.isMutator = true → I.mutation) {args : List Value} (hargs : I.ValidAll w args) :
    I.Agree w I.ValidAnswer (e.apply n tail site f args) (e'.apply n tail site f args) := by
  cases f with
  | closure r => exact callClosure he n tail hsite.tables hf hargs
  | builtin b => exact answer (callBuiltin he hsite b hmutation hargs)
  | hostFunction g name =>
    exact answer (orHostFault name
      (hostFunction site.room (callersAgree he hsite) hsite.frame g hargs))
  | sym s => exact ite (fun _ => answer (ofKeyword s hargs)) fun _ => fail _
  | _ => exact failAfter (shown site.room _) _

theorem callBack (n : Nat) {f : Value} (hf : I.Valid w f)
    (hmutation : f.isMutator = true → I.mutation) {args : List Value} (hargs : I.ValidAll w args) :
    I.Agree w I.Valid (e.callBack n site f args) (e'.callBack n site f args) := by
  have happly : ∀ (table : MacroTableRef) w', w.Grows w' → I.tables table site.ambient →
      I.Agree w' I.Valid (do return (← e.apply n false { site with macros := table } f args).get)
        (do return (← e'.apply n false { site with macros := table } f args).get) := by
    intro table w' hw htables
    have hinner : I.ValidSite w' { site with macros := table } := ⟨hsite.frame.mono hw, htables⟩
    refine bind (apply he hinner n false (hf.mono hw) hmutation (hargs.mono hw))
      fun a _ _ ha => pure ?_
    cases a with
    | value v => exact ha
  have htables := hsite.tables
  unfold Evaluator.callBack
  split
  · rename_i table hambient
    rw [hambient] at htables
    refine happly table w (.refl w) ?_
    rw [hambient]
    exact I.tables_ambient htables
  · rename_i hambient
    rw [hambient] at htables
    refine bind (make (P := Anything) (.single .macroTable) trivial) fun table w' hw _ => ?_
    refine happly table w' hw ?_
    rw [hambient]
    exact I.tables_new htables

theorem memberForm (n : Nat) {r : CellRef} (hr : I.Valid w (.cell r)) (s : Symbol) :
    I.Agree w I.Valid (e.memberForm n site r s) (e'.memberForm n site r s) := by
  refine look fun hw => ?_
  refine bind (arguments he hsite n validAll_nil (hw.cdr hr)) fun args w' _ hargs => ?_
  cases args with
  | nil => exact fail _
  | cons receiver args =>
    exact member (callersAgree he (hsite.mono ‹_›)) site.room hargs.head _ hargs.tail

end

omit he hsite in
theorem specialArguments (site : Site) {v : Value} (hv : I.Valid w v) :
    I.Keeps w I.ValidAll (Evaluator.specialArguments site v) := by
  cases v with
  | cell r => exact properItems site.room hv
  | _ => exact pure validAll_nil

end

end Agree

/-! ## Watches -/

/-- What two watches do agrees. A call that they let pass is one that the rules allow. -/
structure Watches (I : Invariant) (W W' : Watch) : Prop where
  beforeForm : ∀ {site : Site} {v : Value} {w : World}, I.ValidSite w site →
    I.Agree w Anything (W.beforeForm site v) (W'.beforeForm site v)
  beforeCall : ∀ {site : Site} {f : Value} {args : List Value} {w : World}, I.ValidSite w site →
    I.Agree w (fun _ _ => f.isMutator = true → I.mutation) (W.beforeCall site f args)
      (W'.beforeCall site f args)

namespace Watches

open Agree

variable {I : Invariant}

section
variable [Host] [I.AllowsHost] {W W' : Watch} (h : I.Watches W W')
include h

section
variable {e e' : Evaluator} (he : I.Evaluators e e') {w : World} {site : Site}
  (hsite : I.ValidSite w site) (n : Nat) (tail : Bool)
include he hsite

theorem callHead {r : CellRef} (hr : I.Valid w (.cell r)) (head : Value) {f : Value}
    (hf : I.Valid w f) :
    I.Agree w I.ValidAnswer (W.callHead e n tail site r head f)
      (W'.callHead e' n tail site r head f) := by
  refine ite (fun _ => look fun hw => ?_) fun _ => ?_
  · refine bind (arguments he hsite n validAll_nil (hw.cdr hr)) fun args w₁ h₁ hargs => ?_
    refine bind (h.beforeCall (hsite.mono h₁)) fun _ w₂ h₂ hmutation => ?_
    exact apply he (hsite.mono (h₁.trans h₂)) n tail (hf.mono (h₁.trans h₂)) hmutation
      (hargs.mono h₂)
  · exact bind (plain site.room head) fun _ _ _ _ => failAfter (shown site.room f) _

theorem symbolForm {r : CellRef} (hr : I.Valid w (.cell r)) (s : Symbol) :
    I.Agree w I.ValidAnswer (W.symbolForm e n tail site r s)
      (W'.symbolForm e' n tail site r s) := by
  refine look fun hw => ?_
  split
  · rename_i t ht
    refine look fun hw => bind (macroArguments site.room (hw.cdr hr)) fun args w₁ h₁ hargs => ?_
    refine bind (expand he hsite.tables hargs fun c hc => ?_) fun expansion w₂ h₂ hexpansion => ?_
    · subst hc
      exact (hw.transformer? ht).mono h₁
    · exact he.eval (hsite.mono (h₁.trans h₂)) hexpansion
  · split
    · refine look fun hw => bind (specialArguments site (hw.cdr hr)) fun args w' hgrows hargs => ?_
      exact special he (hsite.mono hgrows) _ n tail hargs
    · refine ite (fun _ => answer (memberForm he hsite n hr s)) fun _ =>
        ite (fun _ => ?_) fun _ => ?_
      · refine look fun hw => ?_
        exact bind (arguments he hsite n validAll_nil (hw.cdr hr)) fun args _ _ hargs =>
          answer (ofKeyword s hargs)
      · exact bind (lookup hsite.frame s) fun f w' hgrows hf =>
          h.callHead he (hsite.mono hgrows) n tail (hr.mono hgrows) (.sym s) hf

theorem form {r : CellRef} (hr : I.Valid w (.cell r)) :
    I.Agree w I.ValidAnswer (W.form e n tail site r) (W'.form e' n tail site r) := by
  refine look fun hw => ?_
  split
  · exact h.symbolForm he hsite n tail hr _
  · exact bind (value he hsite (hw.car hr)) fun f w' hgrows hf =>
      h.callHead he (hsite.mono hgrows) n tail (hr.mono hgrows) _ hf

theorem any {v : Value} (hv : I.Valid w v) :
    I.Agree w I.ValidAnswer (W.any e n tail site v) (W'.any e' n tail site v) := by
  refine bind (h.beforeForm hsite) fun _ w₁ h₁ _ => ?_
  have hsite := hsite.mono h₁
  cases v with
  | cell r =>
    refine bind (deeper hsite) fun inner w₂ h₂ hinner => look fun _ => placed _ ?_
    exact h.form he hinner n tail (hv.mono (h₁.trans h₂))
  | sym s => exact ite (fun _ => pure symbol) fun _ => answer (lookup hsite.frame s)
  | vector r =>
    refine bind (deeper hsite) fun inner w₂ h₂ hinner => ?_
    refine bind (mapVectorAt persistent_valid (fun v w₃ h₃ hv => ?_) (hv.mono (h₁.trans h₂)) n 0
      fun _ h => nomatch h) fun _ _ _ hvs => answer (vector hvs)
    exact value he (hinner.mono h₃) hv
  | map r =>
    refine bind (deeper hsite) fun inner w₂ h₂ hinner => answer
      (newEntries (fun v w₃ h₃ hv => ?_) (hv.mono (h₁.trans h₂)))
    exact value he (hinner.mono h₃) hv
  | _ => exact pure (hv.mono h₁)

end

/-- Evaluators under watches that agree, agree. -/
theorem evaluator (n : Nat) : I.Evaluators (W.evaluator n) (W'.evaluator n) := by
  induction n with
  | zero => exact ⟨fun _ _ => throw _, fun _ _ _ => throw _⟩
  | succ n ih =>
    refine ⟨fun hsite hv => h.any ih hsite n _ hv, fun hsite hf hargs => ?_⟩
    refine bind (h.beforeCall hsite) fun _ w' hw hmutation => ?_
    exact callBack ih (hsite.mono hw) n (hf.mono hw) hmutation (hargs.mono hw)

/-- Evaluations under watches that agree, agree. -/
theorem evaluate (n : Nat) {w : World} {site : Site} (hsite : I.ValidSite w site) {v : Value}
    (hv : I.Valid w v) :
    I.Agree w I.Valid (W.evaluate n site v) (W'.evaluate n site v) :=
  bind ((h.evaluator n).eval hsite hv) fun _ _ _ ha => complete (h.evaluator n) hsite.tables n ha

end

/-- A watch that bars changes of objects agrees with itself under any rules. -/
theorem barring (alarm : Stop) : I.Watches (.barring alarm) (.barring alarm) where
  beforeForm _ := pure trivial
  beforeCall {_ f _ _} _ := by
    refine ite (fun _ => throw _) fun hf => pure fun h => ?_
    exact absurd h hf

/-- Where objects may get new contents, doing nothing agrees with itself. -/
theorem idle (hmutation : I.mutation) : I.Watches .idle .idle where
  beforeForm _ := pure trivial
  beforeCall _ := pure fun _ => hmutation

/-- A check that always passes can be left out. -/
theorem checked {W W' : Watch} (h : I.Watches W W') {P : Site → World → Prop}
    (hP : ∀ {site w}, I.Good w → I.ValidSite w site → P site w) (alarm : Stop) :
    I.Watches (W.both (.checking alarm P)) W' where
  beforeForm {site v _} hsite := by
    rw [← bind_pure (W'.beforeForm site v)]
    refine bind (h.beforeForm hsite) fun _ w hw _ hgood => ?_
    have hcheck : (Watch.checking alarm P).beforeForm site v w = .ok () w :=
      if_pos (hP hgood (hsite.mono hw))
    exact ⟨hcheck, by rw [EStateM.run, hcheck]; exact ⟨.refl w, hgood, trivial⟩⟩
  beforeCall {site f args _} hsite := by
    rw [← bind_pure (W'.beforeCall site f args)]
    refine bind (h.beforeCall hsite) fun _ w hw hmutation hgood => ?_
    have hcheck : (Watch.checking alarm P).beforeCall site f args w = .ok () w :=
      if_pos (hP hgood (hsite.mono hw))
    exact ⟨hcheck, by rw [EStateM.run, hcheck]; exact ⟨.refl w, hgood, hmutation⟩⟩

end Watches

end TemplateLisp.Invariant
