import TemplateLisp.Proofs.Fuel

/-!
# Evaluations under watch

A `Watch` says what is done before each form is evaluated and before each function is called, be it
by a form or by a built-in function. `Watch.evaluate` is `evaluate` with that done; with nothing
done it is `evaluate` itself (`Watch.evaluate_idle`).

A watch that raises an alarm makes visible what happens inside of an evaluation. If an evaluation is
the same with an alarm at some event, whichever stop is taken for the alarm, then the event does not
happen in it. `Watch.barring` raises the alarm at calls of the functions that give an object new
contents, and `Watch.checking` does so in a world for which something does not hold. Host code can
give objects new contents by itself, where it asks for that; `Host.barred` is the same host with the
alarm in these places.
-/

namespace TemplateLisp

/-- Whether a run has run out of steps. -/
def Run.isEndless {α : Type} : EStateM.Result Stop World α → Bool
  | .error .endless _ => true
  | _ => false

/-- Where a run that is cut short does not run out of steps, it does what the whole run does. -/
theorem Run.Below.run_eq {α : Type} {x y : Run α} (h : Run.Below x y) {w : World}
    (hw : Run.isEndless (x.run w) = false) : x.run w = y.run w := by
  rcases h w with ⟨w', hx⟩ | hx
  · rw [hx] at hw
    cases hw
  · exact hx

/-- What is done before a form is evaluated and before a function is called with arguments. -/
structure Watch where
  beforeForm : Site → Value → Run Unit
  beforeCall : Site → Value → List Value → Run Unit

namespace Watch

/-! ## Kinds of watches -/

/-- Nothing is done. -/
def idle : Watch := ⟨fun _ _ => pure (), fun _ _ _ => pure ()⟩

/-- What one watch does and then what another does. -/
def both (W W' : Watch) : Watch where
  beforeForm site v := do W.beforeForm site v; W'.beforeForm site v
  beforeCall site f args := do W.beforeCall site f args; W'.beforeCall site f args

theorem idle_both (W : Watch) : idle.both W = W := by
  simp only [both, idle, pure_bind]

end Watch

/-- The built-in functions that give an object new contents. -/
def Builtin.isMutator : Builtin → Bool
  | .setCar => true
  | .setCdr => true
  | .mapSet => true
  | _ => false

/-- The function values that give an object new contents. -/
def Value.isMutator : Value → Bool
  | .builtin b => b.isMutator
  | _ => false

/-! ## Host code that changes objects -/

/-- The requests of host code that give a pair, a vector or a map new contents. -/
def HostRequest.isMutator : HostRequest → Bool
  | .setCar _ _ | .setCdr _ _ | .setVector _ _ | .setEntries _ _ => true
  | _ => false

namespace HostCode

variable {α : Type}

/-- The same code with an alarm in place of each request that gives an object new contents. -/
def barred (alarm : Stop) : HostCode α → HostCode α
  | .answer a => .answer a
  | .raise s => .raise s
  | .ask request next =>
    if request.isMutator then .raise alarm else .ask request fun told => barred alarm (next told)
  | .call env f args next => .call env f args fun told => barred alarm (next told)

/-- The code never gives an object new contents by itself. -/
def Additive : HostCode α → Prop
  | .answer _ => True
  | .raise _ => True
  | .ask request next => request.isMutator = false ∧ ∀ told, Additive (next told)
  | .call _ _ _ next => ∀ told, Additive (next told)

theorem additive_barred (alarm : Stop) (code : HostCode α) : (code.barred alarm).Additive := by
  induction code with
  | answer a => trivial
  | raise s => trivial
  | ask request next ih =>
    unfold barred
    split
    · trivial
    · exact ⟨Bool.eq_false_iff.2 ‹_›, ih⟩
  | call env f args next ih => exact ih

/-- Where nothing is barred the alarm makes no difference. -/
theorem barred_of_additive (alarm : Stop) {code : HostCode α} (h : code.Additive) :
    code.barred alarm = code := by
  induction code with
  | answer a => rfl
  | raise s => rfl
  | ask request next ih =>
    rw [barred, if_neg (by rw [h.1]; exact Bool.false_ne_true)]
    exact congrArg _ (funext fun told => ih told (h.2 told))
  | call env f args next ih => exact congrArg _ (funext fun told => ih told (h told))

end HostCode

/-- The same function with the alarm. -/
def HostFunction.barred (alarm : Stop) : HostFunction → HostFunction
  | .plain code => .plain fun args => (code args).barred alarm
  | .raw code => .raw fun env args => (code env args).barred alarm

/-- The function never gives an object new contents by itself. -/
def HostFunction.Additive : HostFunction → Prop
  | .plain code => ∀ args, (code args).Additive
  | .raw code => ∀ env args, (code env args).Additive

namespace Host

/-- The same host with an alarm in place of each request that gives an object new contents. -/
@[reducible] def barred (H : Host) (alarm : Stop) : Host where
  function f := (H.function f).barred alarm
  find name owner := (H.find name owner).barred alarm
  resolve name owner := (H.resolve name owner).barred alarm
  method name owner args := (H.method name owner args).barred alarm
  element owner index := (H.element owner index).barred alarm
  size owner := (H.size owner).barred alarm

/-- No code of the host gives an object new contents by itself. -/
structure Additive (H : Host) : Prop where
  function : ∀ f, (H.function f).Additive
  find : ∀ name owner, (H.find name owner).Additive
  resolve : ∀ name owner, (H.resolve name owner).Additive
  method : ∀ name owner args, (H.method name owner args).Additive
  element : ∀ owner index, (H.element owner index).Additive
  size : ∀ owner, (H.size owner).Additive

theorem additive_barred (H : Host) (alarm : Stop) : (H.barred alarm).Additive where
  function f := by
    show ((H.function f).barred alarm).Additive
    cases H.function f with
    | plain code => exact fun args => HostCode.additive_barred alarm _
    | raw code => exact fun env args => HostCode.additive_barred alarm _
  find _ _ := HostCode.additive_barred alarm _
  resolve _ _ := HostCode.additive_barred alarm _
  method _ _ _ := HostCode.additive_barred alarm _
  element _ _ := HostCode.additive_barred alarm _
  size _ := HostCode.additive_barred alarm _

theorem barred_of_additive {H : Host} (h : H.Additive) (alarm : Stop) : H.barred alarm = H := by
  obtain ⟨function, find, resolve, method, element, size⟩ := H
  have hcode {α : Type} {code : HostCode α} (hc : code.Additive) : code.barred alarm = code :=
    HostCode.barred_of_additive alarm hc
  have hfunction (f : HostFunction) (hf : f.Additive) : f.barred alarm = f := by
    cases f with
    | plain code => exact congrArg _ (funext fun args => hcode (hf args))
    | raw code => exact congrArg _ (funext fun env => funext fun args => hcode (hf env args))
  show Host.mk (fun f => (function f).barred alarm) (fun name owner =>
    (find name owner).barred alarm)
    (fun name owner => (resolve name owner).barred alarm)
    (fun name owner args => (method name owner args).barred alarm)
    (fun owner index => (element owner index).barred alarm) (fun owner =>
      (size owner).barred alarm) = _
  congr 1
  · exact funext fun f => hfunction _ (h.function f)
  · exact funext fun name => funext fun owner => hcode (h.find name owner)
  · exact funext fun name => funext fun owner => hcode (h.resolve name owner)
  · exact funext fun name => funext fun owner => funext fun args => hcode (h.method name owner args)
  · exact funext fun owner => funext fun index => hcode (h.element owner index)
  · exact funext fun owner => hcode (h.size owner)

end Host

namespace Watch

/-- An alarm at each call of a function that gives an object new contents. -/
def barring (alarm : Stop) : Watch where
  beforeForm _ _ := pure ()
  beforeCall _ f _ := if f.isMutator then throw alarm else pure ()

open Classical in
/-- An alarm at each form and each call in a world for which the condition does not hold at the
site. -/
noncomputable def checking (alarm : Stop) (P : Site → World → Prop) : Watch where
  beforeForm site _ := fun w => if P site w then .ok () w else .error alarm w
  beforeCall site _ _ := fun w => if P site w then .ok () w else .error alarm w

/-! ## Evaluating -/

section
variable (W : Watch) (e : Evaluator) (fuel : Nat) (tail : Bool) (site : Site)

/-- Calls the value of a head with the values of the arguments of a form. -/
def callHead [Host] (r : CellRef) (head f : Value) : Run (Answer tail) := do
  if f.isCallable then
    let args ← e.arguments site fuel [] (← Run.look fun w => (w.cell r).cdr)
    W.beforeCall site f args
    e.apply fuel tail site f args
  else
    let headText ← Run.plain site.room head
    Run.fail (.form (.notCallable headText (← Run.shown site.room f)))

/-- Evaluates a form that is headed by a symbol. -/
def symbolForm [Host] (r : CellRef) (s : Symbol) : Run (Answer tail) := do
  match ← Run.look (·.transformer? site.macros s) with
  | some t =>
    let args ← Evaluator.macroArguments site.room (← Run.look fun w => (w.cell r).cdr)
    e.eval tail site (← e.expand site args t)
  | none =>
    match SpecialForm.ofName? s.name with
    | some f =>
      let args ← Evaluator.specialArguments site (← Run.look fun w => (w.cell r).cdr)
      f.run e fuel tail site args
    | none =>
      if s.isMember then return .value (← e.memberForm fuel site r s)
      else if s.isKeyword then
        let args ← e.arguments site fuel [] (← Run.look fun w => (w.cell r).cdr)
        return .value (← Maps.ofKeyword s args)
      else W.callHead e fuel tail site r (.sym s) (← Run.lookup site.env s)

/-- Evaluates the form that a pair heads. -/
def form [Host] (r : CellRef) : Run (Answer tail) := do
  match ← Run.look fun w => (w.cell r).car with
  | .sym s => W.symbolForm e fuel tail site r s
  | head => W.callHead e fuel tail site r head (← e.value site head)

/-- Evaluates anything. -/
def any [Host] (v : Value) : Run (Answer tail) := do
  W.beforeForm site v
  match v with
  | .cell r =>
    let inner ← site.deeper
    Run.placed (← Run.look fun w => (w.cell r).pos) (W.form e fuel tail inner r)
  | .sym s => if s.isKeyword then return .value v else return .value (← Run.lookup site.env s)
  | .vector r =>
    let inner ← site.deeper
    return .value (← Run.vector (← Run.mapVectorAt (e.value inner) r fuel 0 []))
  | .map r =>
    let inner ← site.deeper
    return .value (← Run.mapEntries (e.value inner) r)
  | _ => return .value v

/-- Calls a function from a built-in function. -/
def callBack [Host] (f : Value) (args : List Value) : Run Value := do
  W.beforeCall site f args
  e.callBack fuel site f args

end

mutual
/-- Evaluates a form, in tail position or not. -/
def eval [Host] (W : Watch) (fuel : Nat) (tail : Bool) (site : Site) (v : Value) :
    Run (Answer tail) :=
  match fuel with
  | 0 => throw .endless
  | n + 1 => W.any ⟨eval W n, call W n⟩ n tail site v
termination_by structural fuel

/-- Calls a function value with evaluated arguments, to completion. -/
def call [Host] (W : Watch) (fuel : Nat) (site : Site) (f : Value)
    (args : List Value) : Run Value :=
  match fuel with
  | 0 => throw .endless
  | n + 1 => W.callBack ⟨eval W n, call W n⟩ n site f args
termination_by structural fuel
end

/-- The evaluator under watch that goes at most `fuel` levels deep. -/
def evaluator [Host] (W : Watch) (fuel : Nat) : Evaluator := ⟨W.eval fuel, W.call fuel⟩

/-- Evaluates a form to completion. -/
def evaluate [Host] (W : Watch) (fuel : Nat) (site : Site) (v : Value) : Run Value := do
  (W.evaluator fuel).complete site fuel (← W.eval fuel true site v)

/-! ## Watching for nothing -/

section
variable (e : Evaluator) (fuel : Nat) (tail : Bool) (site : Site)

theorem callHead_idle [Host] (r : CellRef) (head f : Value) :
    idle.callHead e fuel tail site r head f = e.callHead fuel tail site r head f := by
  simp only [callHead, Evaluator.callHead, idle, pure_bind]

theorem symbolForm_idle [Host] (r : CellRef) (s : Symbol) :
    idle.symbolForm e fuel tail site r s = e.symbolForm fuel tail site r s := by
  unfold symbolForm
  simp only [callHead_idle]
  rfl

theorem form_idle [Host] (r : CellRef) : idle.form e fuel tail site r =
    e.form fuel tail site r := by
  unfold form
  simp only [symbolForm_idle, callHead_idle]
  rfl

theorem any_idle [Host] (v : Value) : idle.any e fuel tail site v = e.any fuel tail site v := by
  simp only [any, Evaluator.any, form_idle]
  exact pure_bind () _

end

theorem evaluator_idle [Host] (fuel : Nat) : idle.evaluator fuel = TemplateLisp.evaluator fuel := by
  induction fuel with
  | zero => rfl
  | succ n ih =>
    have heval : idle.eval (n + 1) = TemplateLisp.eval (n + 1) := by
      funext tail site v
      show idle.any (idle.evaluator n) n tail site v = (TemplateLisp.evaluator n).any n tail site v
      rw [ih, any_idle]
    have hcall : idle.call (n + 1) = TemplateLisp.call (n + 1) := by
      funext site f args
      show idle.callBack (idle.evaluator n) n site f args =
        (TemplateLisp.evaluator n).callBack n site f args
      rw [ih]
      exact pure_bind () _
    rw [evaluator, heval, hcall]
    rfl

/-- An evaluation under a watch that does nothing is the evaluation. -/
theorem evaluate_idle [Host] (fuel : Nat) (site : Site) (v : Value) :
    idle.evaluate fuel site v = TemplateLisp.evaluate fuel site v := by
  have heval : idle.eval fuel = TemplateLisp.eval fuel :=
    congrArg Evaluator.eval (evaluator_idle fuel)
  rw [evaluate, evaluator_idle, heval]
  rfl

/-! ## Alarms that are not raised -/

/-- What one watch does is what the other does cut short. -/
structure Below (W W' : Watch) : Prop where
  beforeForm : ∀ site v, Run.Below (W.beforeForm site v) (W'.beforeForm site v)
  beforeCall : ∀ site f args, Run.Below (W.beforeCall site f args) (W'.beforeCall site f args)

/-- An alarm that ends a run like a lack of steps is any other alarm cut short. -/
theorem barring_below (alarm : Stop) : (barring .endless).Below (barring alarm) where
  beforeForm _ _ := .refl _
  beforeCall _ _ _ := .ite (.endless _) (.refl _)

theorem barring_below_idle : (barring .endless).Below idle where
  beforeForm _ _ := .refl _
  beforeCall _ f _ := by
    unfold barring idle
    dsimp only
    split
    · exact .endless _
    · exact .refl _

namespace Below

variable {W W' : Watch} (h : W.Below W')
include h

section
variable {e e' : Evaluator} (he : e.Below e') (n : Nat) (tail : Bool) (site : Site)
include he

theorem callHead [Host] (r : CellRef) (head f : Value) :
    Run.Below (W.callHead e n tail site r head f) (W'.callHead e' n tail site r head f) := by
  refine .ite (.bind (.refl _) fun forms => ?_) (.bind (.refl _) fun _ => .refl _)
  refine .bind (he.arguments (Nat.le_refl n) site [] forms) fun args => ?_
  refine .bind (h.beforeCall site f args) fun _ => ?_
  exact (he.correspondence (Nat.le_refl n) tail).apply trivial f args

theorem symbolForm [Host] (r : CellRef) (s : Symbol) :
    Run.Below (W.symbolForm e n tail site r s) (W'.symbolForm e' n tail site r s) := by
  have hargs (cdr : Value) : Run.Below (e.arguments site n [] cdr) (e'.arguments site n [] cdr) :=
    he.arguments (Nat.le_refl n) site [] cdr
  refine .bind (.refl _) fun transformer => ?_
  cases transformer with
  | some t =>
    exact .bind (.refl _) fun cdr => .bind (.refl _) fun args =>
      .bind (he.expand site args t) fun expansion => he.eval tail site expansion
  | none =>
    dsimp only
    split
    · exact .bind (.refl _) fun cdr => .bind (.refl _) fun args =>
        (he.correspondence (Nat.le_refl n) tail).special trivial _ args
    · refine .ite (.bind (.bind (.refl _) fun cdr => .bind (hargs cdr) fun args => ?_)
        fun _ => .refl _) ?_
      · cases args with
        | nil => exact .refl _
        | cons receiver args => exact Run.member_below (he.hostCaller site) receiver _ args
      exact .ite (.bind (.refl _) fun cdr => .bind (hargs cdr) fun _ => .refl _)
        (.bind (.refl _) fun f => h.callHead he n tail site r (.sym s) f)

theorem form [Host] (r : CellRef) :
    Run.Below (W.form e n tail site r) (W'.form e' n tail site r) := by
  refine .bind (.refl _) fun head => ?_
  cases head with
  | sym s => exact h.symbolForm he n tail site r s
  | _ => exact .bind (he.value site _) fun f => h.callHead he n tail site r _ f

theorem any [Host] (v : Value) : Run.Below (W.any e n tail site v) (W'.any e' n tail site v) := by
  refine .bind (h.beforeForm site v) fun _ => ?_
  cases v with
  | cell r =>
    exact .bind (.refl _) fun inner => .bind (.refl _) fun pos =>
      .placed pos (h.form he n tail inner r)
  | vector r =>
    exact .bind (.refl _) fun inner =>
      .bind (Run.mapVectorAt_below (he.value inner) r (Nat.le_refl n) 0 []) fun _ => .refl _
  | map r =>
    exact .bind (.refl _) fun inner =>
      .bind (Run.mapEntries_below (he.value inner) r) fun _ => .refl _
  | _ => exact .refl _

end

theorem evaluator [Host] (n : Nat) : (W.evaluator n).Below (W'.evaluator n) := by
  induction n with
  | zero => exact ⟨fun _ _ _ => .refl _, fun _ _ _ => .refl _⟩
  | succ n ih =>
    refine ⟨fun tail site v => h.any ih n tail site v, fun site f args => ?_⟩
    exact .bind (h.beforeCall site f args) fun _ => ih.callBack (Nat.le_refl n) site f args

/-- An evaluation under a watch that cuts short is the evaluation cut short. -/
theorem evaluate [Host] (n : Nat) (site : Site) (v : Value) :
    Run.Below (W.evaluate n site v) (W'.evaluate n site v) :=
  .bind ((h.evaluator n).eval true site v) fun a => (h.evaluator n).complete (Nat.le_refl n) site a

end Below

end Watch

end TemplateLisp
