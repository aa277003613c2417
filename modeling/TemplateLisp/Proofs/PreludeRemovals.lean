import TemplateLisp.Proofs.Binding
import TemplateLisp.Proofs.CallBacks
import TemplateLisp.Proofs.PreludeSearches

/-!
# Removing elements

`remove` filters the sequence by a closure that negates the answers of the function. The closure is
made for the one call and nothing refers to it but `filter`, so nothing that the function does can
get at the frame that it works in.
-/

namespace TemplateLisp

namespace Prelude

open Run (Reaches Matches)
open World (Encodes AtWork Shows)

/-! ## Asking about each element -/

/-- How runs for each of the elements come to their end; `image` is what is made of the answers. -/
def Gathers (y : Nat → Run (List Value)) (w : World) (image : Value → Value) (report : Stop → Stop)
    (state : World → Prop) (answers : List Value) : Ending → Prop
  | .through w' => Reaches y w (.ok (answers.map image) w') ∧ state w'
  | .found .. => False
  | .stopped st w' => Reaches y w (.error (report st) w')
  | .endless => ∀ r, ¬ Reaches y w r

section
variable {y : Value → Nat → Run Value} {w w' : World} {x : Value} {xs : List Value}
  {image : Value → Value} {report : Stop → Stop} {state : World → Prop}

theorem rising_each (hy : ∀ x, Run.Rising (y x)) (xs : List Value) :
    Run.Rising fun n => xs.mapM fun x => y x n :=
  fun _ _ h => .mapM (fun x => hy x h) xs

theorem each_cons {r : EStateM.Result Stop World (List Value)} :
    Reaches (fun n => (x :: xs).mapM fun x => y x n) w r ↔
      Reaches (fun n => y x n >>= fun b => (xs.mapM fun x => y x n) >>= fun bs =>
        pure (b :: bs)) w r := by
  simp only [List.mapM_cons]

/-- What the runs for the elements behind come to is what all come to, behind what the
first gives. -/
theorem Gathers.cons (hy : ∀ x, Run.Rising (y x)) {a : Value} {answers : List Value} {e : Ending}
    (h : Gathers (fun n => xs.mapM fun x => y x n) w' image report state answers e)
    (hx : Reaches (y x) w (.ok (image a) w')) :
    Gathers (fun n => (x :: xs).mapM fun x => y x n) w image report state (a :: answers) e := by
  have hrest := rising_each hy xs
  have hbehind : Run.Rising fun n => (xs.mapM fun x => y x n) >>= fun bs => pure (image a :: bs) :=
    hrest.bind fun bs => .const _
  cases e with
  | through w'' =>
    exact ⟨each_cons.2 (hx.bind (hy x) (h.1.bind hrest (Run.reaches_pure _ w''))), h.2⟩
  | found => exact h
  | stopped => exact each_cons.2 (hx.bind (hy x) (h.bind_error hrest _))
  | endless =>
    intro r hr
    rcases (Run.reaches_bind_iff (hy x)).1 (each_cons.1 hr) with ⟨b, w₁, hb, hr⟩ | ⟨s, w₁, hs, -⟩
    · cases hb.unique hx
      exact Run.not_reaches_bind h hrest _ r hr
    · cases hs.unique hx

end

variable [Host] {i : Interpreter} {p : Function → ClosureRef}

/-- Runs that ask about one element each ask about all of them, one after the other. -/
theorem asks_each {f : Value} {start w : World} {els : List Element} {y : Value → Nat → Run Value}
    {image : Value → Value} {report : Stop → Stop} {state : World → Prop}
    (hy : ∀ x, Run.Rising (y x)) (hsound : ∀ w, state w → w.Sound)
    (hstep : ∀ w x pending, Due i f start els pending w x → state w →
      ∃ w₁, Inquires i f x start w w₁ (y x) report fun a b w' => b = image a ∧ state w')
    {xs : List Value} (hw : Proceeds i f start els (xs.map .value) w) (hstate : state w) :
    ∃ answers e, Asks i f start (fun _ => false) w (xs.map .value) answers e ∧
      Gathers (fun n => xs.mapM fun x => y x n) w image report state answers e := by
  induction xs generalizing w with
  | nil =>
    exact ⟨[], .through w, .through (.refl start w), Run.reaches_pure [] w, hstate⟩
  | cons x xs ih =>
    have hdue : Due i f start els (xs.map .value) w x := ⟨.value x, hw, rfl⟩
    obtain ⟨w₁, hasks⟩ := hstep w x _ hdue hstate
    have hdue := hdue.aside hasks.aside hasks.sound
    have hshows : Shows start w₁ (.value x) x := rfl
    rcases i.calls_cases w₁ f [x] with ⟨a, w₂, hcall⟩ | ⟨st, w₂, hcall⟩ | hendless
    · obtain ⟨_, w₃, hturn, hbehind, rfl, hstate⟩ := hasks.answered a w₂ hcall
      have hw₃ := (hdue.answered hcall).aside hbehind (hsound w₃ hstate)
      obtain ⟨answers, e, hasked, hgathers⟩ := ih hw₃ hstate
      exact ⟨a :: answers, e, .next hasks.aside hasks.sound hshows hcall rfl
        (hasked.before hbehind),
        hgathers.cons hy hturn⟩
    · refine ⟨[], .stopped st w₂, .stopped hasks.aside hasks.sound hshows hcall, ?_⟩
      exact each_cons.2 ((hasks.stopped st w₂ hcall).bind_error (hy x) _)
    · refine ⟨[], .endless, .endless hasks.aside hasks.sound hshows hendless, fun r hr => ?_⟩
      exact Run.not_reaches_bind (hasks.endless hendless) (hy x) _ r (each_cons.1 hr)

/-! ## The negation -/

/-- The form `(not (apply f args))`. -/
def negation : Datum := form [name "not", form [name "apply", name "f", name "args"]]

/-- The reserve has no pairs and nothing that was there in the world, and it has the closure and the
frame. -/
structure Secret (start : World) (k : ClosureRef) (env : FrameRef) (s : Reserve) : Prop
    extends s.Newer start where
  no_cells : ∀ r, ¬ s.cells r
  closure : s.closures k
  frame : s.frames env

/-- The closure negates the answers of the function. Its frame binds the function, and nothing but
the closure leads to that frame and nothing to the closure. -/
structure Negates (i : Interpreter) (f : Value) (start : World) (S : World → Prop) (k : ClosureRef)
    (env : FrameRef) (w : World) : Prop where
  grows : start.Grows w
  reserved : ∃ s : Reserve, Secret start k env s ∧ s.Safe w
  scope : w.Scope i.env env [(env, Bindings.ofNames [(⟨"f"⟩, f)])]
  code : ∃ params body, w.closure k = ⟨params, ⟨[], [], some ⟨"args"⟩⟩, body, env, none⟩ ∧
    Encodes S body negation

omit [Host] in
theorem Negates.sound {f : Value} {start w : World} {S : World → Prop} {k : ClosureRef}
    {env : FrameRef} (h : Negates i f start S k env w) : w.Sound := by
  obtain ⟨s, -, hsafe⟩ := h.reserved
  exact hsafe.sound

/-- The form `(apply f args)` calls the function. -/
theorem Undisturbed.matches_applied {f s x e list : Value} {start w : World} {els : List Element}
    {env : FrameRef} {frames : List (FrameRef × Bindings)}
    (h : Undisturbed i p f s start els) (hw : Reached i f start els w)
    (hscope : w.Scope i.env env frames)
    (hf : (frames.findSome? fun e => Bindings.get? ⟨"f"⟩ e.2) = some f)
    (hargs : (frames.findSome? fun e => Bindings.get? ⟨"args"⟩ e.2) = some list)
    (hfree : (frames.findSome? fun e => Bindings.get? ⟨"apply"⟩ e.2) = none)
    (hlist : w.ListOf list [x])
    (he : Encodes (Reached i f start els) e (form [name "apply", name "f", name "args"])) :
    Matches ((site i env).valueRuns e) w
      (fun n => Run.orHostFault "apply" (call n (site i env) f [x])) w := by
  obtain ⟨q, forms, pos, rfl, hq, hforms⟩ := he.call
  have happly : (site i env).Names w ⟨"apply"⟩ (.builtin .apply) :=
    h.stands.names_builtin hw hscope hfree (by simp [builtins])
  have hgives : (site i env).Gives w forms [f, list] w :=
    gives_code hforms hw (.cons (fun _ => h.stands.value_local hw hscope hf rfl)
      (.cons (fun _ => h.stands.value_local hw hscope hargs rfl) .nil))
  exact (Site.matches_given (site_of i env) rfl (hq w hw) happly hgives).trans
    (Site.matches_apply (site_of i env) rfl h.callable hlist)

section
variable {f s x : Value} {start w : World} {els pending : List Element} {k : ClosureRef}
  {env : FrameRef}
  (h : Undisturbed i p f s start els) (hnegates : Negates i f start (Reached i f start els) k env w)
include hnegates

/-- What makes objects outside of the reserve leaves the closure as it is. -/
theorem Negates.extended {w' : World} (hw : w.Extends w')
    (hsafe : ∀ s : Reserve, Secret start k env s → s.Safe w → s.Safe w') :
    Negates i f start (Reached i f start els) k env w' := by
  obtain ⟨r, hsecret, hr⟩ := hnegates.reserved
  obtain ⟨params, body, hclosure, hbody⟩ := hnegates.code
  have hsame := (hr.apart.extends hw).closure k hsecret.closure
  exact ⟨hnegates.grows.trans hw.toGrows, ⟨r, hsecret, hsafe r hsecret hr⟩,
    hnegates.scope.of_extends hw,
    params, body, hsame.trans hclosure, hbody⟩

/-- The frame of a call of the closure binds the list of its arguments. -/
theorem Negates.opened (hx : x.Known start w) :
    ∃ body list inner w₁, start.Aside w w₁ ∧ w₁.ListOf list [x] ∧
      Encodes (Reached i f start els) body negation ∧
      Negates i f start (Reached i f start els) k env w₁ ∧
      w₁.Scope i.env inner [(inner, Bindings.ofNames [(⟨"args"⟩, list)]),
        (env, Bindings.ofNames [(⟨"f"⟩, f)])] ∧
      Matches (fun n => call n (site i i.env) (.closure k) [x]) w
        ((site i inner).valueRuns body) w₁ := by
  obtain ⟨r, hsecret, hr⟩ := hnegates.reserved
  obtain ⟨params, body, hclosure, hbody⟩ := hnegates.code
  obtain ⟨hsafe, hlist⟩ := hr.addList
    (List.forall_mem_singleton.2 (hx.admits hnegates.grows hsecret.toNewer hsecret.no_cells))
  have hextends := World.extends_addList w [x] .nil
  have hlistOf := World.listOf_addList w [x] (Nat.le_refl _) fun _ _ _ => rfl
  have hbind : ((w.closure k).formals.bind [x] (w.closure k).env (w.closure k).name).run w =
      .ok ⟨(w.addList [x] .nil).2.frames.size⟩ ((w.addList [x] .nil).2.addFrame
        ⟨Bindings.ofNames [(⟨"args"⟩, (w.addList [x] .nil).1)], some env⟩).2 := by
    rw [hclosure]
    rfl
  generalize (w.addList [x] .nil).1 = list at hlist hlistOf hbind
  generalize (w.addList [x] .nil).2 = w' at hsafe hlist hlistOf hextends hbind
  have hscope := hnegates.scope.of_extends hextends
  have hgrows := hnegates.grows.trans hextends.toGrows
  let vars := Bindings.ofNames [(⟨"args"⟩, list)]
  have hvars : ∀ v ∈ World.entryValues vars, w'.InRange v := by
    intro v hv
    obtain ⟨e, he, rfl | rfl⟩ := mem_entryValues_ofNames.1 hv
    · trivial
    · exact List.mem_singleton.1 he ▸ hlist.inRange
  have hstep : start.Aside w' (w'.addFrame ⟨vars, some env⟩).2 :=
    World.aside_addFrame vars env hsafe.sound hgrows
  have haside : start.Aside w (w'.addFrame ⟨vars, some env⟩).2 :=
    (World.Aside.of_extends hextends).trans hstep
  have hnew : World.Holder.frame ⟨w'.frames.size⟩ ∉ start.places := fun hp =>
    Nat.not_lt.2 hgrows.frames (World.mem_places.1 hp)
  have hopened := hscope.opened vars
  have hcode := (haside.closure k (hr.apart.closures k hsecret.closure)).trans hclosure
  refine ⟨body, list, _, _, haside,
    hlistOf.keeps hsafe.sound hlist.inRange hstep.toKeeps, hbody, ?_,
    hopened, Site.matches_closure (site_of i i.env) rfl hbind (congrArg Closure.body hcode)⟩
  refine ⟨hgrows.trans hstep.toGrows, ⟨_, ?_, hsafe.addFrame hvars hscope.inRange⟩,
    hopened.outer, params,
    body, hcode, hbody⟩
  refine ⟨hsecret.toNewer.adding hnew, fun q hq => ?_, .inl hsecret.closure, .inl hsecret.frame⟩
  rcases hq with hq | hq
  · exact hsecret.no_cells q hq
  · cases hq

include h

/-- A call of the function leaves the closure as it is. -/
theorem Negates.called (hdue : Due i f start els pending w x) {a : Value} {w' : World}
    (hcall : i.Calls w f [x] (.ok a w')) : Negates i f start (Reached i f start els) k env w' := by
  obtain ⟨r, hsecret, hr⟩ := hnegates.reserved
  obtain ⟨params, body, hclosure, hbody⟩ := hnegates.code
  have hkept := (h.kept hdue hr hsecret.toNewer hsecret.no_cells hcall).1
  refine ⟨hnegates.grows.trans hkept.grows, ⟨r, hsecret, hkept.safe⟩,
    hnegates.scope.congr hkept.grows.frames ?_, params, body,
    (hkept.closure k hsecret.closure).trans hclosure, hbody⟩
  exact List.forall_mem_singleton.2 (hkept.frame env hsecret.frame)

/-- A call of the closure asks the function and negates its answer. -/
theorem Negates.inquires (hdue : Due i f start els pending w x) :
    ∃ w₁, Inquires i f x start w w₁ (fun n => call n (site i i.env) (.closure k) [x])
      (fun st => st.reportedBy "apply")
      fun a b w' => b = .bool !a.isTruthy ∧ Negates i f start (Reached i f start els) k env w' := by
  obtain ⟨body, list, inner, w₁, haside, hlist, hbody, hnegates, hscope, hcall⟩ :=
    hnegates.opened (h.due hdue).2.2
  have hdue := hdue.aside haside hnegates.sound
  have hw₁ := hdue.reached
  have hnot : (site i inner).Names w₁ ⟨"not"⟩ (.builtin .not) :=
    h.stands.names_builtin hw₁ hscope rfl (by simp [builtins])
  have hasked (e : Value) (he : Encodes (Reached i f start els) e
      (form [name "apply", name "f", name "args"])) :=
        h.matches_applied hw₁ hscope rfl rfl rfl hlist he
  have hasks : Inquires i f x start w₁ w₁ _ _ _ :=
    (Inquires.call (fun _ => h.calls_iff hdue inner) hnegates.sound).reported
      (Run.rising_call _ f [x]) "apply"
  obtain ⟨e, he, hnegated⟩ := matches_not_code hbody hw₁ (fun e he v w₂ hv => by
    have hv :=
      (Run.reaches_orHostFault_ok (Run.rising_call _ f [x]) "apply").1 ((hasked e he _).1 hv)
    exact ⟨_, hdue.answered ((h.calls_iff hdue inner).2 hv)⟩) rfl hnot
  have hrising := (Run.rising_call (site i inner) f [x]).orHostFault "apply"
  have hall :=
    hcall.trans (hnegated.trans ((hasked e he).bind_left (Run.rising_value _ _) hrising _))
  refine ⟨w₁, (hasks.bind hrising fun a b w₂ hanswer => ?_).before haside hall⟩
  obtain ⟨rfl, hanswer⟩ := hanswer
  exact ⟨_, w₂, Run.reaches_pure _ w₂, .refl start w₂, rfl, hnegates.called h hdue hanswer⟩

end

/-! ## The complement of a function -/

section
variable {f s : Value} {start w : World} {els : List Element} {env : FrameRef}
  {frames : List (FrameRef × Bindings)} (h : Undisturbed i p f s start els)
include h

/-- The function that `complement` makes in its frame negates the answers of the one that is bound
there. -/
theorem negation_made {body : Value} (hw : Reached i f start els w)
    (hwork : start.AtWork w i.env env [(env, Bindings.ofNames [(⟨"f"⟩, f)])])
    (hbody : Encodes (Reached i f start els) body Function.complement.code)
    (hrange : w.InRange body) :
    ∃ k w', start.Aside w w' ∧ Negates i f start (Reached i f start els) k env w' ∧
      (∀ env frames, w.Scope i.env env frames → w'.Scope i.env env frames) ∧
      (site i env).HasValue w body (.closure k) w' := by
  obtain ⟨params, code, hparams, hcode, hlist⟩ := hbody.parts_two
  obtain ⟨items, hitems, hparamlist⟩ := hparams.listOf
  obtain _ | ⟨hrest, _ | ⟨hargs, ⟨⟩⟩⟩ := hitems
  obtain rfl := hrest.of_sym
  obtain rfl := hargs.of_sym
  have helements : w.elements? params = some ([.sym ⟨"&rest"⟩, .sym ⟨"args"⟩], .nil) := by
    obtain ⟨cells, hspine, hcells⟩ := hparamlist w hw
    rw [World.elements?, hspine, ← hcells]
    rfl
  let c : Closure := ⟨params, ⟨[], [], some ⟨"args"⟩⟩, code, env, none⟩
  have hfunction : (site i env).HasValue w body (.closure ⟨w.closures.size⟩) (w.addClosure c).2 :=
    Site.hasValue_function rfl (h.stands.standard hw env) (hlist w hw)
      (ParameterList.run_ofValue helements rfl _)
  have hparts := (hlist w hw).inRange hwork.sound hrange
  have hscope {env : FrameRef} {frames : List (FrameRef × Bindings)}
    (hscope : w.Scope i.env env frames) :
      (w.addClosure c).2.Scope i.env env frames := hscope.congr (Nat.le_refl _) fun _ _ => rfl
  have haside : start.Aside w (w.addClosure c).2 := World.aside_addClosure c
  refine ⟨⟨w.closures.size⟩, _, haside, ?_, fun _ _ => hscope, hfunction⟩
  obtain ⟨r, hnew, hr, hframes⟩ := hwork.reserved
  have hvalues : ∀ v ∈ World.closureValues c, w.InRange v := by
    intro v hv
    rcases World.mem_closureValues.1 hv with rfl | rfl | rfl
    · exact hparts _ (.tail _ (.head _))
    · exact hparts _ (.tail _ (.tail _ (.head _)))
    · exact hwork.scope.inRange
  have hplace : World.Holder.closure ⟨w.closures.size⟩ ∉ start.places := fun hp =>
    Nat.not_lt.2 hwork.grows.closures (World.mem_places.1 hp)
  refine ⟨hwork.grows.trans haside.toGrows, ⟨_, ?_, hr.addClosure hvalues⟩,
    hscope hwork.scope, params,
    code, (World.closure_addClosure ..).trans (if_pos rfl), hcode⟩
  refine ⟨hnew.toNewer.adding hplace, fun q hq => ?_, .inr rfl, .inl (hframes _ (.head _))⟩
  rcases hq with hq | hq
  · exact hnew.no_cells q hq
  · cases hq

/-- The form `(complement pred)` makes a closure that negates the answers of the function. -/
theorem complement_made {e : Value} (hw : Reached i f start els w)
    (hwork : start.AtWork w i.env env frames)
    (hpred : (frames.findSome? fun e => Bindings.get? ⟨"pred"⟩ e.2) = some f)
    (hfree : (frames.findSome? fun e => Bindings.get? ⟨"complement"⟩ e.2) = none)
    (he : Encodes (Reached i f start els) e (form [name "complement", name "pred"])) :
    ∃ k inner w', start.Aside w w' ∧ Negates i f start (Reached i f start els) k inner w' ∧
      w'.Scope i.env env frames ∧ (site i env).HasValue w e (.closure k) w' := by
  have hcomplement : (site i env).Names w ⟨"complement"⟩ (.closure (p .complement)) :=
    h.stands.names hw
      (h.stands.bound_root hw hwork.scope hfree (h.stands.functions w hw .complement))
      ⟨rfl, rfl, rfl, rfl⟩ rfl
  have hvalue (e : Value) (he : Encodes (Reached i f start els) e (name "pred")) :
      (site i env).HasValue w e f w := h.stands.value_local hw hwork.scope hpred rfl he
  obtain ⟨e', he', hform⟩ := matches_unary_code he hw (fun e' he' v w₁ hv => by
    cases hv.unique (hvalue e' he').reaches
    exact hw) hcomplement
  -- the frame of the caller makes no difference to a closure
  have hsame (n : Nat) (args : List Value) : call n (site i env) (.closure (p .complement)) args =
      call n (site i i.env) (.closure (p .complement)) args :=
    call_env_of_bringsScope n (site i i.env) env rfl args
  have hform := hform.trans (.after (hvalue e' he') _)
  simp only [hsame] at hform
  have hf : w.InRange f := h.function.mono (h.reached hw).2
  obtain ⟨body, w₁, haside, hwork₁, hscopes, hbody, hrange, hcall⟩ := h.stands.called hw hwork.sound
    hwork.grows .complement [f] [(⟨"f"⟩, f)] (List.forall_mem_singleton.2 hf) fun _ => rfl
  obtain ⟨k, w₂, hmade, hnegates, hkept, hfunction⟩ := negation_made h
    (hw.aside haside hwork₁.sound) hwork₁ hbody (hrange.mono haside.toKeeps.toGrows)
  exact ⟨k, _, w₂, haside.trans hmade, hnegates, hkept _ _ (hscopes _ _ hwork.scope),
    ((hform.trans hcall _).2 hfunction.reaches).comesTo (Run.rising_value _ _)⟩

end

/-! ## Filtering -/

/-- The values whose answers are false. -/
def rejected (xs answers : List Value) : List Value :=
  ((xs.zip answers).filter fun e => !e.2.isTruthy).map (·.1)

omit [Host] in
/-- What passes the negated answers is what has false ones. -/
theorem passed_negated (xs answers : List Value) :
    Sequences.passed xs (answers.map fun a => .bool !a.isTruthy) = rejected xs answers := by
  rw [Sequences.passed, rejected, List.zip_map_right, List.filter_map, List.map_map]
  rfl

/-- `filter` takes the elements, and then it calls the function on each. -/
theorem matches_filter {site : Site} (hsite : site.Of i)
    (hroom : site.room = .unbounded) {w : World} {g s : Value} {els : List Element}
    (hg : g.isCallable = true) (hcontents : w.contents? s = some els) :
    ∃ xs w₁, w.ShowsAll w₁ els xs ∧ w.Extends w₁ ∧
      (∀ r : Reserve, r.Safe w → r.Admits w s → r.Safe w₁) ∧
      Matches (fun n => call n site (.builtin .filter) [g, s]) w
        (fun n => Run.orHostFault Builtin.filter.hostName
          ((xs.mapM fun x => call n site g [x]) >>= fun rs =>
            Run.list (Sequences.passed xs rs))) w₁ := by
  obtain ⟨xs, w₁, hitems, hshows, hextends, hrun⟩ :=
    Sequences.filter_contents hg hcontents site.room
  refine ⟨xs, w₁, hshows, hextends, fun r hr hs => (hr.items hs hitems).1,
    (Site.matches_builtin hsite hroom _ _).trans ?_⟩
  refine .of_run 0 0 0 fun n _ => ?_
  rw [Run.orHostFault, Run.orHostFault, Run.run_tryCatch, Run.run_tryCatch, hrun, List.mapM_map]
  rfl

/-- What filtering comes to where each element has been asked about: a new list of the values that
pass, or what the asking has come to. -/
theorem filter_gathered {y : Value → Nat → Run Value} (hy : ∀ x, Run.Rising (y x)) {f : Value}
    {start w : World} {xs answers : List Value} {e : Ending} {image : Value → Value}
    {state : World → Prop} {report : Stop → Stop} (name : String)
    (hasks : Asks i f start (fun _ => false) w (xs.map .value) answers e)
    (hgathers : Gathers (fun n => xs.mapM fun x => y x n) w image report state answers e) :
    ∃ v e', Asks i f start (fun _ => false) w (xs.map .value) answers e' ∧
      (∀ w', e' = .through w' → w'.ListOf v (Sequences.passed xs (answers.map image))) ∧
      ∀ r, Reaches (fun n => Run.orHostFault name ((xs.mapM fun x => y x n) >>= fun rs =>
          Run.list (Sequences.passed xs rs))) w r ↔
        (e'.reported fun st => (report st).reportedBy name).outcome? (fun _ => v) = some r := by
  have heach := rising_each hy xs
  have hall : Run.Rising fun n => (xs.mapM fun x => y x n) >>= fun rs =>
      Run.list (Sequences.passed xs rs) := heach.bind fun rs => .const _
  have hends {r' r : EStateM.Result Stop World Value} (hr' : Reaches (fun n =>
      (xs.mapM fun x => y x n) >>= fun rs => Run.list (Sequences.passed xs rs)) w r') :
      Reaches (fun n => Run.orHostFault name ((xs.mapM fun x => y x n) >>= fun rs =>
        Run.list (Sequences.passed xs rs))) w r ↔ some (Run.reported name r') = some r := by
    rw [Run.reaches_orHostFault hall]
    refine ⟨fun ⟨r'', hr'', hr⟩ => ?_, fun hr => ⟨r', hr', (Option.some.inj hr).symm⟩⟩
    rw [hr, hr''.unique hr']
  cases e with
  | through w' =>
    let kept := Sequences.passed xs (answers.map image)
    have hlist : Run.ComesTo (fun _ => Run.list kept) w'
        (.ok (w'.addList kept .nil).1 (w'.addList kept .nil).2) := .of_forall fun _ => rfl
    refine ⟨_, _, hasks.behind (.of_extends (World.extends_addList w' kept .nil)),
      fun w'' hw'' => ?_,
      fun r => hends (hgathers.1.bind heach hlist.reaches)⟩
    cases hw''
    exact World.listOf_addList w' kept (Nat.le_refl _) fun _ _ _ => rfl
  | found => exact hgathers.elim
  | stopped st w' =>
    refine ⟨.nil, _, hasks, nofun, fun r => ?_⟩
    rw [hends (hgathers.bind_error heach _), Run.reported_error]
    rfl
  | endless =>
    refine ⟨.nil, _, hasks, nofun, fun r => ⟨fun hr => ?_, nofun⟩⟩
    obtain ⟨r', hr', -⟩ := (Run.reaches_orHostFault hall name).1 hr
    exact absurd hr' (Run.not_reaches_bind hgathers heach _ r')

/-- `filter` asks about all elements, and its result is a list of those with true answers. -/
theorem filter_calls {f s : Value} {start : World} {els : List Element}
    (h : Undisturbed i p f s start els) :
    ∃ xs w answers v e, start.Aside start w ∧ start.ShowsAll w els xs ∧
      Asks i f start (fun _ => false) w (xs.map .value) answers e ∧
      (∀ w', e = .through w' → w'.ListOf v (Sequences.passed xs answers)) ∧
      ∀ r, i.Calls start (.builtin .filter) [f, s] r ↔
        (e.reported (Stop.reportedBy Builtin.filter.hostName)).outcome? (fun _ => v) = some r := by
  obtain ⟨xs, w, hshows, hextends, hsafe, hcall⟩ :=
    matches_filter (site_of i i.env) rfl h.callable h.contents
  have hsound :=
    (hsafe .none (Reserve.safe_none h.sound) (Reserve.admits_none_iff.2 h.sequence)).sound
  have hrising (x : Value) : Run.Rising fun n => call n (site i i.env) f [x] :=
    Run.rising_call _ _ _
  have hw : Proceeds i f start els els w := .aside .start (.of_extends hextends) hsound
  obtain ⟨answers, e, hasks, hgathers⟩ := asks_each hrising (fun _ hsound => hsound)
    (fun w x _ hdue hsound => ⟨w, (Inquires.call (fun _ => h.calls_iff hdue i.env) hsound).imp
      fun a b w' hanswer => ⟨hanswer.1, (h.kept_none hdue hanswer.2).1.safe.sound⟩⟩)
    (hw.taken hshows) hsound
  obtain ⟨v, e', hasks, hlist, houtcome⟩ :=
    filter_gathered hrising Builtin.filter.hostName hasks hgathers
  rw [List.map_id'] at hlist
  refine ⟨xs, w, answers, v, e', .of_extends hextends, hshows, hasks, hlist, fun r => ?_⟩
  rw [calls_root, hcall r, houtcome r]
  rfl

/-! ## Removing -/

section
variable {f s : Value} {start : World} {els : List Element} (h : Undisturbed i p f s start els)
include h

/-- `remove` makes the closure and takes the elements, and then the closure is called on each. -/
theorem removal_starts :
    ∃ k env xs w, start.Aside start w ∧ start.ShowsAll w els xs ∧
      Proceeds i f start els (xs.map .value) w ∧ Negates i f start (Reached i f start els) k env w ∧
      Matches (fun n => call n (site i i.env) (.closure (p .remove)) [f, s]) start
        (fun n => Run.orHostFault Builtin.filter.hostName
          ((xs.mapM fun x => call n (site i i.env) (.closure k) [x]) >>= fun rs =>
            Run.list (Sequences.passed xs rs))) w := by
  have hstart : Reached i f start els start := ⟨els, .start⟩
  obtain ⟨body, w₁, hcalled, hwork, -, hbody, -, hcall⟩ :=
    h.stands.called hstart h.sound (.refl start)
    .remove [f, s] [(⟨"pred"⟩, f), (⟨"seq"⟩, s)]
    (List.forall_mem_cons.2 ⟨h.function, List.forall_mem_singleton.2 h.sequence⟩) fun _ => rfl
  generalize (⟨start.frames.size⟩ : FrameRef) = env at hwork hcall
  have hw₁ := hstart.aside hcalled hwork.sound
  obtain ⟨q, forms, pos, rfl, hq, hforms⟩ := hbody.call
  obtain ⟨l, c, rfl, hl, hfirst, hrest⟩ := Encodes.of_cons hforms
  have hfilter : (site i env).Names w₁ ⟨"filter"⟩ (.builtin .filter) :=
    h.stands.names_builtin hw₁ hwork.scope rfl (by simp [builtins])
  -- the arguments: the closure and the sequence
  obtain ⟨k, inner, w₂, hmade, hnegates, hscope, hvalue⟩ :=
    complement_made h hw₁ hwork rfl rfl hfirst
  have hsound₂ := hnegates.sound
  have hw₂ := hw₁.aside hmade hsound₂
  have hseq (e : Value) (he : Encodes (Reached i f start els) e (name "seq")) :
      (site i env).HasValue w₂ e s w₂ := h.stands.value_local hw₂ hscope rfl rfl he
  have hvalue : (site i env).HasValue w₁ (w₁.cell l).car (.closure k) w₂ :=
    (hl w₁ hw₁).symm ▸ hvalue
  have hbehind : (site i env).Gives w₂ (w₂.cell l).cdr [s] w₂ :=
    (hl w₂ hw₂).symm ▸ gives_code hrest hw₂ (.cons hseq .nil)
  have hremove := hcall.trans
    (Site.matches_given (site_of i env) rfl (hq w₁ hw₁) hfilter (.cons hvalue hbehind))
  -- the elements, which are all there is to do before the calls
  have haside := hcalled.trans hmade
  have hcontents := haside.contents? h.contents h.sound h.sequence
  obtain ⟨xs, w₃, hshows, hextends, hsafe, hfiltered⟩ :=
    matches_filter (g := .closure k) (site_of i env) rfl rfl hcontents
  have hnegates := hnegates.extended hextends fun r hsecret hr =>
    hsafe r hr (hsecret.toNewer.admits haside.toGrows h.sequence)
  have hshows : start.ShowsAll w₃ els xs := hshows.imp fun _ _ hx => hx.since haside.toKeeps.cells
  have hw₃ : Proceeds i f start els els w₃ :=
    (Proceeds.aside .start haside hsound₂).aside (.of_extends hextends) hnegates.sound
  have hsame (n : Nat) (x : Value) : call n (site i env) (.closure k) [x] =
      call n (site i i.env) (.closure k) [x] := call_env_of_bringsScope n (site i i.env) env rfl [x]
  simp only [hsame] at hfiltered
  exact ⟨k, inner, xs, w₃, haside.trans (.of_extends hextends), hshows, hw₃.taken hshows, hnegates,
    hremove.trans hfiltered⟩

/-- `remove` asks about all elements, and its result is a list of those with false answers. -/
theorem remove_calls :
    ∃ xs w answers v e, start.Aside start w ∧ start.ShowsAll w els xs ∧
      Asks i f start (fun _ => false) w (xs.map .value) answers e ∧
      (∀ w', e = .through w' → w'.ListOf v (rejected xs answers)) ∧
      ∀ r, i.Calls start (.closure (p .remove)) [f, s] r ↔
        (e.reported (Stop.reportedBy "apply")).outcome? (fun _ => v) = some r := by
  obtain ⟨k, env, xs, w, haside, hshows, hw, hnegates, hcall⟩ := removal_starts h
  have hrising (x : Value) : Run.Rising fun n => call n (site i i.env) (.closure k) [x] :=
    Run.rising_call _ _ _
  obtain ⟨answers, e, hasks, hgathers⟩ := asks_each hrising (fun _ hstate => hstate.sound)
    (fun _ _ _ hdue hnegates => hnegates.inquires h hdue) hw hnegates
  obtain ⟨v, e', hasks, hlist, houtcome⟩ :=
    filter_gathered hrising Builtin.filter.hostName hasks hgathers
  refine ⟨xs, w, answers, v, e', haside, hshows, hasks,
    passed_negated xs answers ▸ hlist, fun r => ?_⟩
  rw [calls_root, hcall r, houtcome r]
  simp only [Stop.reportedBy_reportedBy]

end

end Prelude

end TemplateLisp
