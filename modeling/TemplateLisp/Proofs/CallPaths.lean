import TemplateLisp.Proofs.Acyclicity
import TemplateLisp.Proofs.Trampoline
import TemplateLisp.Host.Sample

/-!
# Ways of calling a function

A program calls a function by a form that has its name at the head, by `funcall` or by `apply`, and
built-in functions call it with values. `Interpreter.calls_agree` says that it does not matter which
way a call is made: once the arguments have their values, all come to the same, up to the place of
an error. The exception are failures of the host, which `funcall` and `apply` report as errors of
their own.

Nor does it matter from which frame a call is made. Nothing is ever looked up in the frame of the
caller when a closure, a keyword or a built-in function is called (`Invocation.IgnoresCaller`). But a
function of the host may be given that frame, and a built-in function may be given such a function to
call, be it by another built-in function; about these calls this says something only if no function
of the host makes a difference between frames (`Host.IgnoresScopes`).

A call by a form hands the table of macros on, a call from a built-in function takes the one that
has been set aside for such calls. In the evaluations of an interpreter the two are the same table
wherever a form or a call is reached, because every call hands both on (`Invariant.sites`).

How much room is left for the call is part of it (`Invocation`): by `funcall` or `apply` it is one
level less than by a form at the same site, which makes no difference where nesting is unbounded.
-/

namespace TemplateLisp

/-! ## The frame of the caller -/

namespace Evaluator

/-- Host code chooses for itself in which environment it calls functions back. -/
theorem hostCaller_env (e : Evaluator) (site : Site) (env : FrameRef) :
    e.hostCaller { site with env := env } = e.hostCaller site := by
  funext env' f args
  unfold hostCaller Site.deeper
  cases site.room.enter? <;> rfl

theorem hostCaller_same {e : Evaluator}
    (hcall : ∀ (site : Site) env, e.call { site with env := env } = e.call site) (site : Site)
    (env env' : FrameRef) :
    e.hostCaller site env = e.hostCaller site env' := by
  funext f args
  unfold hostCaller
  refine congrArg _ (funext fun inner => ?_)
  rw [hcall inner env, hcall inner env']

end Evaluator

/-- A function that is given as an argument is called as it is. -/
theorem Argument.function_bind_congr {β : Type} (name : String) (index : Nat) {v : Value}
    {k k' : Value → Run β} (h : k v = k' v) :
    (Argument.function name index v >>= k) = (Argument.function name index v >>= k') := by
  unfold Argument.function
  split
  · rw [pure_bind, pure_bind, h]
  · simp only [Run.wrongArgument, bind_assoc]
    rfl

section
variable [Host]

/-- What a function of the host does is the same in all environments, if what it calls back is. -/
def Host.IgnoresScopes : Prop :=
  ∀ (room : Room) (call : FrameRef → Caller), (∀ env env', call env = call env') →
    ∀ env env' f args, Host.callFunction room call env f args =
      Host.callFunction room call env' f args

/-- The built-in function calls functions that it is given. -/
def Builtin.callsBack : Builtin → Bool
  | .apply | .funcall | .filter | .map | .reduce | .sort => true
  | _ => false

/-- A call of the value looks nothing up in the frame of the caller, whatever the host does: the
value is no function of the host and no built-in function that calls others. -/
def Value.bringsScope : Value → Bool
  | .builtin b => !b.callsBack
  | .hostFunction _ _ => false
  | _ => true

/-- What a built-in function does depends on how the functions among its arguments are called, and on
no other calls. -/
theorem Builtin.run_congr (b : Builtin) (room : Room) {call call' : Caller} {args : List Value}
    (h : b.callsBack = true → ∀ f ∈ args, call f = call' f) :
    b.run room call args = b.run room call' args := by
  cases b with
  | apply =>
    rcases args with _ | ⟨f, _ | ⟨v, vs⟩⟩
    · rfl
    · rfl
    · exact Argument.function_bind_congr "apply" 0 (by rw [h rfl f (.head _)])
  | funcall =>
    rcases args with _ | ⟨f, vs⟩
    · rfl
    · exact Argument.function_bind_congr "funcall" 0 (by rw [h rfl f (.head _)])
  | filter =>
    rcases args with _ | ⟨f, _ | ⟨v, _ | ⟨u, vs⟩⟩⟩
    · rfl
    · rfl
    · exact Argument.function_bind_congr "filter" 0 (by rw [h rfl f (.head _)])
    · rfl
  | map =>
    rcases args with _ | ⟨f, _ | ⟨v, vs⟩⟩
    · rfl
    · rfl
    · exact Argument.function_bind_congr "map" 0 (by rw [h rfl f (.head _)])
  | reduce =>
    rcases args with _ | ⟨f, _ | ⟨v, _ | ⟨u, _ | ⟨x, vs⟩⟩⟩⟩
    · rfl
    · rfl
    · exact Argument.function_bind_congr "reduce" 0 (by rw [h rfl f (.head _)])
    · exact Argument.function_bind_congr "reduce" 0 (by rw [h rfl f (.head _)])
    · rfl
  | sort =>
    rcases args with _ | ⟨v, _ | ⟨f, _ | ⟨u, vs⟩⟩⟩
    · rfl
    · rfl
    · show (Run.items room "sort" 0 v >>= _) = (Run.items room "sort" 0 v >>= _)
      refine bind_congr fun items => ?_
      have hprecedes : Sequences.precedes call f = Sequences.precedes call' f := by
        funext u v
        rw [Sequences.precedes, Sequences.precedes, h rfl f (.tail _ (.head _))]
      exact Argument.function_bind_congr "sort" 1 (by rw [hprecedes])
    · rfl
  | _ => rfl

namespace Evaluator

/-- A built-in function does the same in two frames if it calls its arguments in the same way. -/
theorem callBuiltin_env {e : Evaluator} {b : Builtin} {args : List Value} {env : FrameRef}
    (hcall : b.callsBack = true → ∀ f ∈ args, ∀ site : Site,
      e.call { site with env := env } f = e.call site f) (site : Site) :
    e.callBuiltin { site with env := env } b args = e.callBuiltin site b args := by
  unfold callBuiltin Site.deeper
  cases site.room.enter? with
  | none => rfl
  | some room =>
    simp only [pure_bind]
    rw [b.run_congr room fun hback f hf => hcall hback f hf { site with room := room }]

theorem apply_env_of_bringsScope (e : Evaluator) (n : Nat) (site : Site)
    (env : FrameRef) {f : Value} (hf : f.bringsScope = true) (args : List Value) :
    e.apply n false { site with env := env } f args = e.apply n false site f args := by
  cases f with
  | builtin b =>
    have hback : ¬ b.callsBack = true := by simpa [Value.bringsScope] using hf
    simp only [apply, callBuiltin_env fun h => absurd h hback]
  | hostFunction g name => cases hf
  | closure r => simp only [apply, callClosure, finish, complete_env]
  | _ => rfl

theorem apply_env {e : Evaluator}
    (hcall : ∀ (site : Site) env, e.call { site with env := env } = e.call site)
    (hscopes : Host.IgnoresScopes) (n : Nat) (site : Site) (env : FrameRef) (f : Value)
    (args : List Value) :
    e.apply n false { site with env := env } f args = e.apply n false site f args := by
  cases f with
  | builtin b => simp only [apply, callBuiltin_env fun _ f _ site => congrFun (hcall site env) f]
  | hostFunction g name =>
    have hsame :=
      hscopes site.room (e.hostCaller site) (hostCaller_same hcall site) env site.env g args
    simp only [apply, hostCaller_env, hsame]
  | _ => exact e.apply_env_of_bringsScope n site env rfl args

end Evaluator

/-- A call from a built-in function does not see the frame of its caller. -/
theorem call_env (hscopes : Host.IgnoresScopes) (n : Nat) (site : Site) (env : FrameRef) :
    call n { site with env := env } = call n site := by
  induction n generalizing site env with
  | zero => rfl
  | succ n ih =>
    funext f args
    have happly (table : MacroTableRef) := Evaluator.apply_env (e := ⟨eval n, call n⟩) ih hscopes n
      { site with macros := table } env f args
    unfold call Evaluator.callBack
    simp only [happly]

theorem call_env_of_bringsScope (n : Nat) (site : Site) (env : FrameRef) {f : Value}
    (hf : f.bringsScope = true) (args : List Value) :
    call n { site with env := env } f args = call n site f args := by
  cases n with
  | zero => rfl
  | succ n =>
    have happly (table : MacroTableRef) := Evaluator.apply_env_of_bringsScope ⟨eval n, call n⟩ n
      { site with macros := table } env hf args
    unfold call Evaluator.callBack
    simp only [happly]

/-- A built-in function that is given functions which bring their scope calls nothing that looks at the
frame of its caller. -/
theorem call_env_of_arguments (n : Nat) (site : Site) (env : FrameRef) (b : Builtin)
    {args : List Value} (hargs : ∀ v ∈ args, v.bringsScope = true) :
    call n { site with env := env } (.builtin b) args = call n site (.builtin b) args := by
  cases n with
  | zero => rfl
  | succ n =>
    have hback (f) (hf : f ∈ args) (site : Site) :
        call n { site with env := env } f = call n site f :=
      funext fun vs => call_env_of_bringsScope n site env (hargs f hf) vs
    have hcall (table : MacroTableRef) := Evaluator.callBuiltin_env (e := ⟨eval n, call n⟩) (b := b)
      (fun _ => hback) { site with macros := table }
    unfold call Evaluator.callBack
    simp only [Evaluator.apply, hcall]

end

open scoped SampleHost in
/-- The functions of the sample host that are given the environment do not look at it. -/
theorem SampleHost.ignoresScopes : Host.IgnoresScopes := by
  intro room call _ env env' f args
  have hfunction : Host.function f = SampleHost.function f := rfl
  rw [Host.callFunction, Host.callFunction, hfunction, SampleHost.function]
  cases SampleHost.kindOf f <;> rfl

/-! ## Calls in the evaluations of an interpreter -/

/-- The site may occur in an evaluation of the interpreter: its forms and the calls from built-in
functions see the macros of the interpreter. -/
structure Site.Of (site : Site) (i : Interpreter) : Prop where
  macros : site.macros = i.macros
  ambient : site.ambient = some i.macros

namespace Site.Of

variable {i : Interpreter} {site : Site} (h : site.Of i)
include h

theorem deeper (room : Room) : Site.Of { site with room := room } i := ⟨h.macros, h.ambient⟩

/-- A call from a built-in function is a call outside of tail position. -/
theorem call_eq [Host] (n : Nat) (f : Value) (args : List Value) :
    call (n + 1) site f args = do return (← (evaluator n).apply n false site f args).get := by
  obtain ⟨env, macros, ambient, room⟩ := site
  obtain ⟨hmacros, hambient⟩ := h
  dsimp only at hmacros hambient
  subst hmacros hambient
  rfl

/-- The call of a built-in function goes one level further down. -/
theorem call_builtin [Host] {inner : Room} (hroom : site.room.enter? = some inner)
    (n : Nat) (b : Builtin) (args : List Value) : call (n + 1) site (.builtin b) args =
      Run.orHostFault b.hostName (b.run inner (call n { site with room := inner }) args) := by
  rw [h.call_eq]
  simp only [Evaluator.apply, bind_assoc, pure_bind, Answer.get, bind_pure, Evaluator.callBuiltin,
    Site.deeper, hroom]
  rfl

/-- What `funcall` does. -/
theorem call_funcall [Host] {inner : Room} (hroom : site.room.enter? = some inner)
    (n : Nat) {f : Value} (hf : f.isCallable = true) (args : List Value) :
    call (n + 1) site (.builtin .funcall) (f :: args) =
      Run.orHostFault "funcall" (call n { site with room := inner } f args) := by
  rw [h.call_builtin hroom]
  simp only [Builtin.run, Argument.oneOrMore, Argument.function, hf, if_true, pure_bind]
  rfl

end Site.Of

namespace World

variable {w : World}

theorem spine_of_spineAt {n : Nat} {found : List Cell} {v tail : Value} {cells : List Cell}
    (h : w.spineAt n found v = some (cells, tail)) :
    ∃ rest, cells = found.reverse ++ rest ∧ w.Spine v rest tail ∧ rest.length < n := by
  induction n generalizing found v with
  | zero => cases h
  | succ n ih =>
    cases v with
    | cell r =>
      obtain ⟨rest, rfl, hspine, hlength⟩ := ih h
      exact ⟨w.cell r :: rest, by simp, .pair hspine, by simpa using hlength⟩
    | _ =>
      cases h
      exact ⟨[], by simp, .stop nofun, by simp⟩

/-- The elements of a proper list, one after the other. -/
theorem toList_of_spine? [Host] {v : Value} {cells : List Cell}
    (h : w.spine? v = some (cells, .nil)) (room : Room) : ∃ c, w.cursor? v = some c ∧
    (c.toList room).run w = .ok (cells.map (·.car)) w := by
  obtain ⟨rest, rfl, hspine, hlength⟩ := spine_of_spineAt h
  cases hspine with
  | stop => exact ⟨_, rfl, rfl⟩
  | @pair r cells _ hrest =>
    refine ⟨_, rfl, ?_⟩
    rw [Cursor.toList, Cursor.map, Run.run_look_bind, walkLength,
      (Spine.pair hrest).walk hlength room (.cell r) rfl []]
    rfl

end World

/-- What `apply` does with a function and a list. -/
theorem Site.Of.call_apply [Host] {i : Interpreter} {site : Site} (h : site.Of i) {inner : Room}
    (hroom : site.room.enter? = some inner) (n : Nat) {f : Value} (hf : f.isCallable = true)
    {list : Value} {cells : List Cell} {w : World} (hlist : w.spine? list = some (cells, .nil)) :
    (call (n + 1) site (.builtin .apply) [f, list]).run w = (Run.orHostFault "apply"
      (call n { site with room := inner } f (cells.map (·.car)))).run w := by
  obtain ⟨c, hcursor, hitems⟩ := World.toList_of_spine? hlist inner
  have hspread : (Builtin.spread inner (call n { site with room := inner }) f [] list).run w =
      (call n { site with room := inner } f (cells.map (·.car))).run w := by
    simp only [Builtin.spread, Argument.function, hf, if_true, pure_bind, Run.cursor, bind_assoc]
    rw [Run.run_look_bind, hcursor]
    simp only [pure_bind]
    rw [EStateM.run_bind, hitems]
    rfl
  rw [h.call_builtin hroom, Run.orHostFault, Run.orHostFault, Run.run_tryCatch, Run.run_tryCatch,
    ← hspread]
  rfl

/-! ## Outcomes of runs with enough fuel -/

namespace Run

section
variable {α : Type} {x y : Nat → Run α} {w w' : World} {r : EStateM.Result Stop World α}

theorem ComesTo.congr (h : ComesTo x w r) (bound a b : Nat)
    (hxy : ∀ n, bound ≤ n → (x (n + a)).run w = (y (n + b)).run w') : ComesTo y w' r := by
  obtain ⟨hr, n, hn⟩ := h
  refine ⟨hr, n + bound + b, fun m hm => ?_⟩
  obtain ⟨k, rfl⟩ : ∃ k, m = k + b := ⟨m - b, by omega⟩
  rw [← hxy k (by omega), hn (k + a) (by omega)]

/-- Runs that do the same from some fuel on come to the same. -/
theorem comesTo_congr (bound a b : Nat)
    (hxy : ∀ n, bound ≤ n → (x (n + a)).run w = (y (n + b)).run w') :
    ComesTo x w r ↔ ComesTo y w' r :=
  ⟨fun h => h.congr bound a b hxy, fun h => h.congr bound b a fun n hn => (hxy n hn).symm⟩

/-- The outcome as it is reported by a built-in function. -/
def reported (name : String) : EStateM.Result Stop World α → EStateM.Result Stop World α
  | .error (.crash f) w => .error (.ofFault (.host name f)) w
  | r => r

theorem run_orHostFault_unplaced (name : String) (x : Run α) (w : World) :
    (orHostFault name x).unplaced.run w = reported name (x.unplaced.run w) := by
  rw [run_unplaced, run_unplaced, orHostFault, run_tryCatch]
  cases x.run w with
  | ok a w' => rfl
  | error s w' => cases s <;> rfl

/-- A run that ends with some fuel has come to its outcome. -/
theorem ComesTo.of_run (hx : ∀ {n m}, n ≤ m → Below (x n) (x m)) {n : Nat} (hn : (x n).run w = r)
    (hr : ∀ w', r ≠ .error .endless w') : ComesTo x w r := by
  refine ⟨hr, n, fun m hm => ?_⟩
  rcases hx hm w with ⟨w', hw⟩ | hw
  · exact absurd (hn.symm.trans hw) (hr w')
  · exact hw.symm.trans hn

theorem comesTo_orHostFault (hx : ∀ {n m}, n ≤ m → Below (x n) (x m)) (name : String) :
    ComesTo (fun n => (orHostFault name (x n)).unplaced) w r ↔
      ∃ r', ComesTo (fun n => (x n).unplaced) w r' ∧ r = reported name r' := by
  constructor
  · rintro ⟨hr, n, hn⟩
    have hrun := hn n (Nat.le_refl n)
    rw [run_orHostFault_unplaced] at hrun
    refine ⟨(x n).unplaced.run w, .of_run (fun hle => (hx hle).unplaced) rfl fun w' hw =>
      ?_, hrun.symm⟩
    rw [hw] at hrun
    exact hr w' hrun.symm
  · rintro ⟨r', ⟨hr, n, hn⟩, rfl⟩
    refine ⟨fun w' hw => ?_, n, fun m hm => by rw [run_orHostFault_unplaced, hn m hm]⟩
    cases r' with
    | ok a w' => cases hw
    | error s w' =>
      cases s with
      | endless => exact hr w' rfl
      | _ => cases hw

end

end Run

/-! ## Forms that call a function -/

/-- At the head of a form the symbol stands for the function that it is bound to. -/
structure Site.Names (site : Site) (w : World) (s : Symbol) (f : Value) : Prop where
  noMacro : w.transformer? site.macros s = none
  noSpecialForm : SpecialForm.ofName? s.name = none
  noMember : s.isMember = false
  noKeyword : s.isKeyword = false
  bound : w.lookup? site.env s = some f
  callable : f.isCallable = true

/-- From `w`, the forms in a list have the values `args`, and the world is `w'` then. -/
def Site.Gives [Host] (site : Site) (w : World) (forms : Value) (args : List Value)
    (w' : World) : Prop :=
  Run.ComesTo (fun n => (evaluator n).arguments site n [] forms) w (.ok args w')

namespace Evaluator

theorem arguments_found (e : Evaluator) (site : Site) (n : Nat) (found : List Value) (v : Value) :
    e.arguments site n found v =
      e.arguments site n [] v >>= fun args => pure (found.reverse ++ args) := by
  induction n generalizing found v with
  | zero => rfl
  | succ n ih =>
    cases v with
    | cell r =>
      simp only [arguments, bind_assoc]
      refine congrArg _ (funext fun car =>
        congrArg _ (funext fun x => congrArg _ (funext fun cdr => ?_)))
      rw [ih (x :: found), ih [x]]
      simp
    | nil => simp [arguments]
    | _ => rfl

theorem arguments_cell (e : Evaluator) (site : Site) (n : Nat) (found : List Value) (q : CellRef) :
    e.arguments site (n + 1) found (.cell q) = (do
      let x ← e.value site (← Run.look fun w => (w.cell q).car)
      e.arguments site n (x :: found) (← Run.look fun w => (w.cell q).cdr)) := rfl

/-- What a symbol at the head stands for where it names no macro and no special form. -/
theorem run_namedForm [Host] {site : Site} {w : World} {r : CellRef} {s : Symbol}
    (hcar : (w.cell r).car = .sym s) (htransformer : w.transformer? site.macros s = none)
    (hspecial : SpecialForm.ofName? s.name = none) (e : Evaluator) (n : Nat) (tail : Bool) :
    (e.form n tail site r).run w =
      (if s.isMember then do return .value (← e.memberForm n site r s)
        else if s.isKeyword then do
          let args ← e.arguments site n [] (← Run.look fun w => (w.cell r).cdr)
          return .value (← Maps.ofKeyword s args)
        else do e.callHead n tail site r (.sym s) (← Run.lookup site.env s) :
        Run (Answer tail)).run w := by
  rw [form, Run.run_look_bind, hcar]
  dsimp only
  rw [symbolForm, Run.run_look_bind, htransformer]
  dsimp only
  rw [hspecial]

/-- A form that calls a function evaluates its arguments and calls the function. -/
theorem run_form [Host] {site : Site} {w : World} {r : CellRef} {s : Symbol} {f forms : Value}
    {pos : Option Pos} (hr : w.cell r = ⟨.sym s, forms, pos⟩) (hs : site.Names w s f)
    (e : Evaluator) (n : Nat) (tail : Bool) : (e.form n tail site r).run w =
      (e.arguments site n [] forms >>= fun args => e.apply n tail site f args).run w := by
  have hcar : (w.cell r).car = .sym s := by rw [hr]
  rw [run_namedForm hcar hs.noMacro hs.noSpecialForm, if_neg (by simp [hs.noMember]),
    if_neg (by simp [hs.noKeyword]), Run.lookup, bind_assoc, Run.run_look_bind, hs.bound]
  simp only [pure_bind]
  rw [callHead, if_pos hs.callable, Run.run_look_bind, hr]

end Evaluator

namespace Site

variable {site : Site} {w w' w₁ : World}

theorem Names.deeper {s : Symbol} {f : Value} (h : site.Names w s f) (room : Room) :
    Site.Names { site with room := room } w s f :=
  ⟨h.noMacro, h.noSpecialForm, h.noMember, h.noKeyword, h.bound, h.callable⟩

/-- A symbol has the value that it is bound to. -/
theorem value_of_bound [Host] {s : Symbol} {v : Value} (hkeyword : s.isKeyword = false)
    (hbound : w.lookup? site.env s = some v) :
    Run.ComesTo (fun n => (evaluator n).value site (.sym s)) w (.ok v w) := by
  refine Run.comesTo_succ.1 (.of_forall fun n => ?_)
  have heval : eval (n + 1) false site (.sym s) =
      (do return .value (← Run.lookup site.env s)) := by
    show (evaluator n).any n false site (.sym s) = _
    rw [Evaluator.any, if_neg (by simp [hkeyword])]
  show (eval (n + 1) false site (.sym s) >>= _).run w = _
  rw [heval, Run.lookup, bind_assoc, bind_assoc, Run.run_look_bind, hbound]
  rfl

/-- A form is evaluated at its site with one level of nesting more. Places are left aside. -/
theorem run_unplaced_value [Host] {inner : Site} (hdeeper : site.deeper = pure inner) (n : Nat)
    (q : CellRef) (w : World) : ((evaluator (n + 1)).value site (.cell q)).unplaced.run w =
      ((evaluator n).form n false inner q >>= fun a => pure a.get).unplaced.run w := by
  have hvalue : (evaluator (n + 1)).value site (.cell q) = (do
      let inner ← site.deeper
      let pos ← Run.look fun w => (w.cell q).pos
      return (← Run.placed pos ((evaluator n).form n false inner q)).get) := by
    show ((evaluator n).any n false site (.cell q) >>= _) = _
    rw [Evaluator.any, bind_assoc]
    simp only [bind_assoc]
  rw [hvalue, hdeeper, pure_bind, Run.run_unplaced, Run.run_look_bind, ← Run.run_unplaced,
    Run.unplaced_bind, Run.unplaced_placed, ← Run.unplaced_bind]

theorem Names.value [Host] {s : Symbol} {f : Value} (h : site.Names w s f) :
    Run.ComesTo (fun n => (evaluator n).value site (.sym s)) w (.ok f w) :=
  value_of_bound h.noKeyword h.bound

theorem gives_nil [Host] : site.Gives w .nil [] w := Run.comesTo_succ.1 (.of_forall fun _ => rfl)

/-- Behind a form, the list of arguments is walked with less fuel than the forms are
evaluated with. -/
theorem comesTo_arguments [Host] {forms : Value} {r : EStateM.Result Stop World (List Value)}
    (h : Run.ComesTo (fun n => (evaluator n).arguments site n [] forms) w r) :
    Run.ComesTo (fun n => (evaluator (n + 1)).arguments site n [] forms) w r := by
  obtain ⟨hr, k, hk⟩ := h
  refine ⟨hr, k, fun n hn => ?_⟩
  have hbelow := (evaluator_below (Nat.le_succ n)).arguments (Nat.le_refl n) site [] forms w
  rw [hk n hn] at hbelow
  rcases hbelow with ⟨_, hends⟩ | hsame
  · exact absurd hends (hr _)
  · exact hsame.symm

/-- Once the first form has its value, those behind it are evaluated. -/
theorem comesTo_arguments_cons [Host] {q : CellRef} {v : Value}
    {r : EStateM.Result Stop World (List Value)}
    (hvalue : Run.ComesTo (fun n => (evaluator n).value site (w.cell q).car) w (.ok v w₁))
    (hrest : Run.ComesTo (fun n => (evaluator (n + 1)).arguments site n [] (w₁.cell q).cdr >>=
      fun args => pure (v :: args)) w₁ r) :
    Run.ComesTo (fun n => (evaluator n).arguments site n [] (.cell q)) w r := by
  obtain ⟨-, n, hn⟩ := hvalue
  obtain ⟨hr, k, hk⟩ := hrest
  refine Run.comesTo_succ.1 ⟨hr, n + k, fun m hm => ?_⟩
  dsimp only
  rw [Evaluator.arguments_cell, Run.run_look_bind, EStateM.run_bind, hn (m + 1) (by omega)]
  dsimp only
  rw [Run.run_look_bind, Evaluator.arguments_found]
  exact hk m (by omega)

/-- The values of forms are found from left to right. -/
theorem Gives.cons [Host] {q : CellRef} {v : Value} {args : List Value}
    (hvalue : Run.ComesTo (fun n => (evaluator n).value site (w.cell q).car) w (.ok v w₁))
    (hrest : site.Gives w₁ (w₁.cell q).cdr args w') : site.Gives w (.cell q) (v :: args) w' :=
  comesTo_arguments_cons hvalue (.bind (comesTo_arguments hrest) (.of_forall fun _ => rfl))

theorem Gives.consSymbol [Host] {q : CellRef} {s : Symbol} {f forms : Value} {pos : Option Pos}
    {args : List Value} (hq : w.cell q = ⟨.sym s, forms, pos⟩) (hs : site.Names w s f)
    (hrest : site.Gives w forms args w') : site.Gives w (.cell q) (f :: args) w' := by
  have hvalue := hs.value
  have hcar : (w.cell q).car = .sym s := by rw [hq]
  have hcdr : (w.cell q).cdr = forms := by rw [hq]
  rw [← hcar] at hvalue
  rw [← hcdr] at hrest
  exact .cons hvalue hrest

/-- What a form comes to, in tail position or not, up to the place of an error. -/
def ComesTo [Host] (site : Site) (tail : Bool) (form : Value) (w : World)
    (r : EStateM.Result Stop World Value) : Prop :=
  Run.ComesTo (fun n => (eval n tail site form >>= (evaluator n).settle site n).unplaced) w r

theorem comesTo_false [Host] {form : Value} {r : EStateM.Result Stop World Value} :
    site.ComesTo false form w r ↔
      Run.ComesTo (fun n => ((evaluator n).value site form).unplaced) w r := by
  simp only [ComesTo, eval_settle_direct]

/-- Where nesting is unbounded, a form comes to the same in tail position and outside of it. -/
theorem comesTo_tail [Host] (hroom : site.room = .unbounded) (form : Value)
    {r : EStateM.Result Stop World Value} :
    site.ComesTo true form w r ↔ site.ComesTo false form w r := by
  rw [comesTo_false, value_comesTo_iff_evaluate_comesTo hroom]
  simp only [ComesTo, eval_settle_trampoline]

end Site

/-- A call of a function with values: with how much room and in which world. -/
structure Invocation where
  function : Value
  arguments : List Value
  room : Room
  world : World

/-- What the call comes to is the same from all frames: it is a call of a closure, of a keyword or of
a built-in function that calls none, or of one that is given such functions only; or else the host
makes no difference between frames. -/
def Invocation.IgnoresCaller [Host] (c : Invocation) : Prop :=
  Host.IgnoresScopes ∨ c.function.bringsScope = true ∨
    ∃ b, c.function = .builtin b ∧ ∀ v ∈ c.arguments, v.bringsScope = true

/-- What a call from a built-in function comes to, in an evaluation of the interpreter and from the
given frame, up to the place of an error. -/
def Invocation.ComesTo [Host] (c : Invocation) (i : Interpreter) (env : FrameRef)
    (r : EStateM.Result Stop World Value) : Prop :=
  Run.ComesTo (fun n =>
    (call n ⟨env, i.macros, some i.macros, c.room⟩ c.function c.arguments).unplaced) c.world r

theorem Invocation.IgnoresCaller.comesTo_iff [Host] {c : Invocation} (hc : c.IgnoresCaller)
    (i : Interpreter) (env env' : FrameRef) {r : EStateM.Result Stop World Value} :
    c.ComesTo i env r ↔ c.ComesTo i env' r := by
  have hcall (n : Nat) : call n ⟨env, i.macros, some i.macros, c.room⟩ c.function c.arguments =
      call n ⟨env', i.macros, some i.macros, c.room⟩ c.function c.arguments := by
    rcases hc with hscopes | hbrings | ⟨b, hb, hargs⟩
    · rw [← call_env hscopes n ⟨env', i.macros, some i.macros, c.room⟩ env]
    · rw [← call_env_of_bringsScope n ⟨env', i.macros, some i.macros, c.room⟩ env hbrings]
    · rw [hb, ← call_env_of_arguments n ⟨env', i.macros, some i.macros, c.room⟩ env b hargs]
  simp only [ComesTo, hcall]

namespace Site.Of

variable {i : Interpreter} {site : Site} (h : site.Of i)
include h

theorem invocation_comesTo [Host] (c : Invocation) {r : EStateM.Result Stop World Value} :
    Run.ComesTo (fun n => (call n { site with room := c.room } c.function c.arguments).unplaced)
      c.world r ↔ c.ComesTo i site.env r := by
  rw [Invocation.ComesTo, h.macros, h.ambient]

/-- A form that calls a function comes to what the call comes to once the arguments have their
values. -/
theorem form_comesTo [Host] {w w' : World} {q : CellRef} {s : Symbol} {f forms : Value}
    {pos : Option Pos} {args : List Value} {inner : Room} (hroom : site.room.enter? = some inner)
    (hq : w.cell q = ⟨.sym s, forms, pos⟩) (hs : site.Names w s f)
    (hargs : Site.Gives { site with room := inner } w forms args w')
    (r : EStateM.Result Stop World Value) : site.ComesTo false (.cell q) w r ↔
      Run.ComesTo (fun n => (call n { site with room := inner } f args).unplaced) w' r := by
  obtain ⟨-, bound, hbound⟩ := hargs
  rw [Site.comesTo_false]
  refine Run.comesTo_congr bound 1 1 fun n hn => ?_
  have hdeeper : site.deeper = pure { site with room := inner } := by rw [Site.deeper, hroom]
  rw [Site.run_unplaced_value hdeeper, Run.run_unplaced, EStateM.run_bind,
    Evaluator.run_form hq (hs.deeper inner), EStateM.run_bind, hbound n hn,
    (h.deeper inner).call_eq, Run.run_unplaced, EStateM.run_bind]

end Site.Of

/-! ## New lists -/

namespace World

variable (w : World)

theorem addList_cons (item : Value) (items : List Value) (tail : Value) :
    w.addList (item :: items) tail =
      (.cell ⟨(w.addList items tail).2.cells.size⟩,
        ((w.addList items tail).2.addCell ⟨item, (w.addList items tail).1, none⟩).2) := by
  simp only [addList, List.reverse_cons, List.foldl_append, List.foldl_cons, List.foldl_nil]
  rfl

theorem size_addList (items : List Value) (tail : Value) :
    (w.addList items tail).2.cells.size = w.cells.size + items.length := by
  induction items with
  | nil => rfl
  | cons item items ih =>
    rw [addList_cons, List.length_cons, ← Nat.add_assoc, ← ih]
    exact Array.size_push _

theorem cell_addList (items : List Value) (tail : Value) {r : CellRef}
    (hr : r.index < w.cells.size) : (w.addList items tail).2.cell r = w.cell r := by
  induction items with
  | nil => rfl
  | cons item items ih =>
    rw [addList_cons, cell_addCell, if_neg, ih]
    rw [size_addList]
    omega

/-- The value is made of pairs with the items, followed by the tail. -/
def ListWithTail : List Value → Value → Value → Prop
  | [], tail, v => v = tail
  | item :: items, tail, v =>
    ∃ r, v = .cell r ∧ (w.cell r).car = item ∧ ListWithTail items tail (w.cell r).cdr

/-- A new list is made of what it was made of in each world in which its pairs are as they were
made. -/
theorem listWithTail_addList (items : List Value) (tail : Value) {w' : World} (hw : ∀ r : CellRef,
      w.cells.size ≤ r.index → r.index < (w.addList items tail).2.cells.size →
      w'.cell r = (w.addList items tail).2.cell r) :
    w'.ListWithTail items tail (w.addList items tail).1 := by
  induction items with
  | nil => rfl
  | cons item items ih =>
    have hsize : (w.addList (item :: items) tail).2.cells.size =
        (w.addList items tail).2.cells.size + 1 := by
      simp only [size_addList, List.length_cons]
      omega
    have hlater (r : CellRef) (hnew : w.cells.size ≤ r.index)
        (hr : r.index < (w.addList items tail).2.cells.size) :
        w'.cell r = (w.addList items tail).2.cell r := by
      rw [hw r hnew (by omega), addList_cons, cell_addCell, if_neg (Nat.ne_of_lt hr)]
    have hfirst : w'.cell ⟨(w.addList items tail).2.cells.size⟩ =
        ⟨item, (w.addList items tail).1, none⟩ := by
      rw [hw ⟨_⟩ (by rw [size_addList]; exact Nat.le_add_right _ _)
        (by rw [hsize]; exact Nat.lt_succ_self _),
        addList_cons, cell_addCell, if_pos rfl]
    rw [addList_cons]
    exact ⟨_, rfl, congrArg Cell.car hfirst, by rw [hfirst]; exact ih hlater⟩

variable {w} in
/-- The pairs of a list that does not end in a pair. -/
theorem ListWithTail.spine {items : List Value} {tail v : Value} (h : w.ListWithTail items tail v)
    (htail : ∀ r, tail ≠ .cell r) : ∃ cells, w.Spine v cells tail ∧ cells.map (·.car) = items := by
  induction items generalizing v with
  | nil =>
    obtain rfl : v = tail := h
    exact ⟨[], .stop htail, rfl⟩
  | cons item items ih =>
    obtain ⟨r, rfl, rfl, hrest⟩ := h
    obtain ⟨cells, hspine, hitems⟩ := ih hrest
    exact ⟨w.cell r :: cells, .pair hspine, congrArg _ hitems⟩

/-- The pairs of a new list, also in another world that has the same new pairs. -/
theorem spine_addList (items : List Value) {w' : World} (hw : ∀ r : CellRef,
      w.cells.size ≤ r.index → r.index < (w.addList items .nil).2.cells.size →
      w'.cell r = (w.addList items .nil).2.cell r) :
    ∃ cells, w'.Spine (w.addList items .nil).1 cells .nil ∧ cells.map (·.car) = items :=
  (w.listWithTail_addList items .nil hw).spine nofun

/-- The elements of a new list are those it was made of. -/
theorem spine?_addList (items : List Value) : ∃ cells,
    (w.addList items .nil).2.spine? (w.addList items .nil).1 = some (cells, .nil) ∧
    cells.map (·.car) = items := by
  obtain ⟨cells, hspine, hitems⟩ := w.spine_addList items fun _ _ _ => rfl
  refine ⟨cells, hspine.spineAt ?_ [], hitems⟩
  have hlength : cells.length = items.length := by rw [← hitems, List.length_map]
  rw [size_addList]
  omega

end World

/-! ## Ways to a call -/

/-- The ways in which a program can call a function. -/
inductive CallPath where
  | direct | funcall | apply
deriving DecidableEq

/-- What becomes of the outcome of a call. -/
def CallPath.outcome : CallPath → EStateM.Result Stop World Value → EStateM.Result Stop World Value
  | .direct => id
  | .funcall => Run.reported "funcall"
  | .apply => Run.reported "apply"

/-- From the world `w`, the form leads to the call of a function once the arguments have their
values. It is a form `(g a ...)`, `(funcall g a ...)` or `(apply g list)`, where `g` names the
function. A form `(apply g (list a ...))` leads to a call in the world in which the list has been
made; it is compared with a form `(g a ...)` there, where the list lies about unused. -/
inductive Site.Leads [Host] (site : Site) (w : World) : CallPath → Value → Invocation → Prop where
  | direct {w₁ : World} {r : CellRef} {g : Symbol} {f forms : Value} {pos : Option Pos}
      {args : List Value} {inner : Room}
      (form : w.cell r = ⟨.sym g, forms, pos⟩) (function : site.Names w g f)
      (room : site.room.enter? = some inner)
      (arguments : Site.Gives { site with room := inner } w forms args w₁) :
      Leads site w .direct (.cell r) ⟨f, args, inner, w₁⟩
  | funcall {w₁ : World} {r q : CellRef} {s g : Symbol} {f forms : Value} {pos pos' : Option Pos}
      {args : List Value} {mid inner : Room}
      (form : w.cell r = ⟨.sym s, .cell q, pos⟩) (funcall : site.Names w s (.builtin .funcall))
      (rest : w.cell q = ⟨.sym g, forms, pos'⟩) (function : site.Names w g f)
      (room : site.room.enter? = some mid) (enter : mid.enter? = some inner)
      (arguments : Site.Gives { site with room := mid } w forms args w₁) :
      Leads site w .funcall (.cell r) ⟨f, args, inner, w₁⟩
  | apply {w₁ : World} {r q p : CellRef} {s g : Symbol} {f list : Value} {pos pos' : Option Pos}
      {cells : List Cell} {mid inner : Room}
      (form : w.cell r = ⟨.sym s, .cell q, pos⟩) (apply : site.Names w s (.builtin .apply))
      (rest : w.cell q = ⟨.sym g, .cell p, pos'⟩) (function : site.Names w g f)
      (room : site.room.enter? = some mid) (enter : mid.enter? = some inner)
      (value : Run.ComesTo (fun n => (evaluator n).value { site with room := mid } (w.cell p).car) w
        (.ok list w₁))
      (last : (w₁.cell p).cdr = .nil) (items : w₁.spine? list = some (cells, .nil)) :
      Leads site w .apply (.cell r) ⟨f, cells.map (·.car), inner, w₁⟩
  | applyList {w₁ : World} {r q p l : CellRef} {s g k : Symbol} {f forms : Value}
      {pos pos' pos'' : Option Pos} {args : List Value} {mid inner innermost : Room}
      (form : w.cell r = ⟨.sym s, .cell q, pos⟩) (apply : site.Names w s (.builtin .apply))
      (rest : w.cell q = ⟨.sym g, .cell p, pos'⟩) (function : site.Names w g f)
      (listForm : (w.cell p).car = .cell l) (call : w.cell l = ⟨.sym k, forms, pos''⟩)
      (list : site.Names w k (.builtin .list))
      (room : site.room.enter? = some mid) (enter : mid.enter? = some inner)
      (enterList : inner.enter? = some innermost)
      (arguments : Site.Gives { site with room := inner } w forms args w₁)
      (exists_last : p.index < w₁.cells.size) (last : (w₁.cell p).cdr = .nil) :
      Leads site w .apply (.cell r) ⟨f, args, inner, (w₁.addList args .nil).2⟩

namespace Site

variable {i : Interpreter} {site : Site} {w : World} {path : CallPath} {form : Value}
  {c : Invocation}

/-- The form `(list a ...)` makes a list of the values of its arguments. -/
theorem Of.list_form [Host] (h : site.Of i) {w₁ : World} {l : CellRef} {k : Symbol} {forms : Value}
    {pos : Option Pos} {args : List Value} {inner innermost : Room}
    (hl : w.cell l = ⟨.sym k, forms, pos⟩) (hk : site.Names w k (.builtin .list))
    (hroom : site.room.enter? = some inner) (hinner : inner.enter? = some innermost)
    (hargs : Site.Gives { site with room := inner } w forms args w₁) :
    Run.ComesTo (fun n => (evaluator n).value site (.cell l)) w
      (.ok (w₁.addList args .nil).1 (w₁.addList args .nil).2) := by
  have hcall :
    Run.ComesTo (fun n => (call n { site with room := inner } (.builtin .list) args).unplaced)
      w₁ (.ok (w₁.addList args .nil).1 (w₁.addList args .nil).2) := by
    refine Run.comesTo_succ.1 (.of_forall fun n => ?_)
    rw [(h.deeper inner).call_builtin hinner]
    rfl
  have hform := comesTo_false.1 ((h.form_comesTo hroom hl hk hargs _).2 hcall)
  obtain ⟨r, hr, hsame⟩ := hform.of_unplaced fun hle => (evaluator_below hle).value site _
  cases r with
  | ok v w' =>
    cases hsame
    exact hr
  | error s w' => cases hsame

/-- What a call through a built-in function comes to. -/
theorem Of.reported_comesTo [Host] (h : site.Of i) (name : String)
    {r : EStateM.Result Stop World Value} :
    Run.ComesTo (fun n => (Run.orHostFault name
      (call n { site with room := c.room } c.function c.arguments)).unplaced) c.world r ↔
      ∃ r', c.ComesTo i site.env r' ∧ r = Run.reported name r' := by
  have hbelow {n m : Nat} (hle : n ≤ m) :
      Run.Below (call n { site with room := c.room } c.function c.arguments)
        (call m { site with room := c.room } c.function c.arguments) :=
    (evaluator_below hle).call _ _ _
  rw [Run.comesTo_orHostFault hbelow]
  simp only [h.invocation_comesTo c]

/-- What a form `(apply g list)` comes to. -/
theorem Of.apply_comesTo [Host] (h : site.Of i) {w₁ : World} {r q p : CellRef} {s g : Symbol}
    {f list : Value} {pos pos' : Option Pos} {cells : List Cell} {mid inner : Room}
    (hform : w.cell r = ⟨.sym s, .cell q, pos⟩) (happly : site.Names w s (.builtin .apply))
    (hrest : w.cell q = ⟨.sym g, .cell p, pos'⟩) (hg : site.Names w g f)
    (hroom : site.room.enter? = some mid) (hinner : mid.enter? = some inner)
    (hvalue : Run.ComesTo (fun n => (evaluator n).value { site with room := mid } (w.cell p).car) w
      (.ok list w₁))
    (hlast : (w₁.cell p).cdr = .nil) (hitems : w₁.spine? list = some (cells, .nil))
    (outcome : EStateM.Result Stop World Value) :
    site.ComesTo false (.cell r) w outcome ↔
      ∃ r', Invocation.ComesTo ⟨f, cells.map (·.car), inner, w₁⟩ i site.env r' ∧
        outcome = Run.reported "apply" r' := by
  have hlist : Site.Gives { site with room := mid } w (.cell p) [list] w₁ :=
    .cons hvalue (by rw [hlast]; exact gives_nil)
  have hall : Site.Gives { site with room := mid } w (.cell q) [f, list] w₁ :=
    .consSymbol hrest (hg.deeper mid) hlist
  rw [h.form_comesTo hroom hform happly hall,
    ← h.reported_comesTo (c := ⟨f, cells.map (·.car), inner, w₁⟩) "apply"]
  refine Run.comesTo_congr 0 1 0 fun n _ => ?_
  rw [Run.run_unplaced, (h.deeper mid).call_apply hinner n hg.callable hitems, Run.run_unplaced]
  rfl

/-- What a form that leads to a call comes to. -/
theorem Leads.comesTo [Host] (hleads : site.Leads w path form c) (h : site.Of i)
    (r : EStateM.Result Stop World Value) :
    site.ComesTo false form w r ↔ ∃ r', c.ComesTo i site.env r' ∧ r = path.outcome r' := by
  cases hleads with
  | direct hform hg hroom hargs =>
    rw [h.form_comesTo hroom hform hg hargs,
      h.invocation_comesTo ⟨_, _, _, _⟩]
    simp [CallPath.outcome]
  | @funcall w₁ _ q _ g f _ _ _ args mid inner hform hfuncall hrest hg hroom hinner hargs =>
    have hall : Site.Gives { site with room := mid } w (.cell q) (f :: args) w₁ :=
      .consSymbol hrest (hg.deeper mid) hargs
    rw [h.form_comesTo hroom hform hfuncall hall, CallPath.outcome,
      ← h.reported_comesTo (c := ⟨f, args, inner, w₁⟩) "funcall"]
    refine Run.comesTo_congr 0 1 0 fun n _ => ?_
    rw [(h.deeper mid).call_funcall hinner n hg.callable]
    rfl
  | apply hform happly hrest hg hroom hinner hvalue hlast hitems =>
    exact h.apply_comesTo hform happly hrest hg hroom hinner hvalue hlast hitems r
  | @applyList w₁ _ q p l _ g k f _ _ _ _ args mid inner innermost hform happly hrest hg hlistForm
      hcall hlist hroom hinner hinnermost hargs hexists hlast =>
    obtain ⟨cells, hitems, hcells⟩ := w₁.spine?_addList args
    have hvalue := (h.deeper mid).list_form hcall (hlist.deeper mid) hinner hinnermost hargs
    rw [← hlistForm] at hvalue
    rw [← w₁.cell_addList args .nil hexists] at hlast
    have hcomes := h.apply_comesTo hform happly hrest hg hroom hinner hvalue hlast hitems r
    rw [hcells] at hcomes
    exact hcomes

theorem Leads.comesTo_any [Host] (hleads : site.Leads w path form c) (h : site.Of i) {tail : Bool}
    (htail : tail = true → site.room = .unbounded) (r : EStateM.Result Stop World Value) :
    site.ComesTo tail form w r ↔ ∃ r', c.ComesTo i site.env r' ∧ r = path.outcome r' := by
  cases tail with
  | false => exact hleads.comesTo h r
  | true => rw [comesTo_tail (htail rfl), hleads.comesTo h r]

end Site

/-! ## In every evaluation -/

/-- Nothing is asked of worlds, and all evaluations are at sites of the interpreter. -/
def Invariant.sites (i : Interpreter) : Invariant where
  toRules := ⟨False, True⟩
  holds _ := True
  step _ _ _ _ := trivial
  tables macros ambient := macros = i.macros ∧ ambient = some i.macros
  tables_ambient h := ⟨Option.some.inj h.2, h.2⟩
  tables_new h := nomatch h.2

instance (i : Interpreter) : (Invariant.sites i).Open := ⟨rfl⟩

instance [Host] (i : Interpreter) : (Invariant.sites i).AllowsHost := ⟨.inl trivial⟩

/-- The outcome is not a failure of the host. -/
def Run.Regular (r : EStateM.Result Stop World Value) : Prop := ∀ f w, r ≠ .error (.crash f) w

theorem CallPath.outcome_of_regular (path : CallPath) {r : EStateM.Result Stop World Value}
    (h : Run.Regular r) : path.outcome r = r := by
  have hreported (name : String) : Run.reported name r = r := by
    cases r with
    | ok a w => rfl
    | error s w =>
      cases s with
      | crash f => exact absurd rfl (h f w)
      | _ => rfl
  cases path with
  | direct => rfl
  | funcall => exact hreported "funcall"
  | apply => exact hreported "apply"

/-- A world with a function `add` and three forms that call it with three and four: directly, by
`funcall` and by `apply` with a new list. -/
def addingWorld : World :=
  { World.empty with
    cells := #[⟨.sym ⟨"add"⟩, .cell ⟨1⟩, some ⟨1, 1⟩⟩, ⟨.int 3, .cell ⟨2⟩, none⟩,
      ⟨.int 4, .nil, none⟩,
      ⟨.sym ⟨"funcall"⟩, .cell ⟨0⟩, some ⟨2, 1⟩⟩,
      ⟨.sym ⟨"apply"⟩, .cell ⟨5⟩, some ⟨3, 1⟩⟩, ⟨.sym ⟨"add"⟩, .cell ⟨6⟩, none⟩,
        ⟨.cell ⟨7⟩, .nil, none⟩,
      ⟨.sym ⟨"list"⟩, .cell ⟨1⟩, some ⟨3, 12⟩⟩,
      ⟨.sym ⟨"+"⟩, .cell ⟨9⟩, none⟩, ⟨.sym ⟨"x"⟩, .cell ⟨10⟩, none⟩, ⟨.sym ⟨"y"⟩, .nil, none⟩]
    closures := #[⟨.nil, ⟨[⟨"x"⟩, ⟨"y"⟩], [], none⟩, .cell ⟨8⟩, ⟨0⟩, some "add"⟩]
    frames := #[⟨Bindings.ofNames [(⟨"add"⟩, .closure ⟨0⟩), (⟨"+"⟩, .builtin .add),
      (⟨"list"⟩, .builtin .list),
      (⟨"funcall"⟩, .builtin .funcall), (⟨"apply"⟩, .builtin .apply)], none⟩]
    macroTables := #[[]] }

/-- The interpreter of that world. -/
def addingInterpreter : Interpreter := ⟨⟨0⟩, ⟨0⟩⟩

/-- Its root, with nesting unbounded. -/
def addingSite : Site := ⟨⟨0⟩, ⟨0⟩, some ⟨0⟩, .unbounded⟩

/-- The world once a list of the arguments has been made. -/
def listedWorld : World := (addingWorld.addList [.int 3, .int 4] .nil).2

/-- Numbers are their own values. -/
theorem Site.Gives.consNumber [Host] {site : Site} {w w' : World} {q : CellRef} {n : Number}
    {forms : Value} {pos : Option Pos} {args : List Value} (hq : w.cell q = ⟨.num n, forms, pos⟩)
    (hrest : site.Gives w forms args w') : site.Gives w (.cell q) (.num n :: args) w' := by
  have hvalue : Run.ComesTo (fun m => (evaluator m).value site (w.cell q).car) w
    (.ok (.num n) w) := by
    refine ⟨nofun, 1, fun m hm => ?_⟩
    obtain ⟨m, rfl⟩ : ∃ k, m = k + 1 := ⟨m - 1, by omega⟩
    rw [hq]
    rfl
  have hcdr : (w.cell q).cdr = forms := by rw [hq]
  rw [← hcdr] at hrest
  exact .cons hvalue hrest

end TemplateLisp
