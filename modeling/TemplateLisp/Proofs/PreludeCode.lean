import TemplateLisp.Proofs.LocalScopes
import TemplateLisp.Proofs.Outcomes

/-!
# The prelude at its place

The functions of the prelude as trees, and what it means that they are in the world as they were
loaded: the root binds their names to closures with these trees as code, the built-in functions that
they use are what they were, and so is the table of macros (`Prelude.Stands`).

A function that calls others goes on with the pairs of its code that it had in hand before. So what
is said about code is said about all worlds in question at once: it is made of the same pairs in
each (`World.Encodes`).
-/

namespace TemplateLisp

/-! ## Code -/

namespace Prelude

/-- A name in code. -/
def name (s : String) : Datum := .sym ⟨s⟩

/-- A form of code. -/
def form (parts : List Datum) : Datum := .ofList none .nil parts

/-- A loop through `seq` that collects its result in a variable. -/
def search (result : String) (start turn : Datum) : Datum :=
  form [name "let", form [form [name result, start]],
    form [name "doseq", form [name "x", name "seq"], turn], name result]

/-- The functions that are proved correct here, and `complement`, which `remove` uses. -/
inductive Function where
  | complement | remove | every | some | sum

namespace Function

def name : Function → Symbol
  | complement => ⟨"complement"⟩
  | remove => ⟨"remove"⟩
  | every => ⟨"every?"⟩
  | some => ⟨"some"⟩
  | sum => ⟨"sum"⟩

def parameters : Function → List Symbol
  | complement => [⟨"f"⟩]
  | sum => [⟨"seq"⟩]
  | _ => [⟨"pred"⟩, ⟨"seq"⟩]

/-- The code of each function. -/
def code : Function → Datum
  | complement => form [Prelude.name "fn", form [Prelude.name "&rest", Prelude.name "args"],
      form [Prelude.name "not", form [Prelude.name "apply", Prelude.name "f", Prelude.name "args"]]]
  | remove => form [Prelude.name "filter", form [Prelude.name "complement", Prelude.name "pred"],
      Prelude.name "seq"]
  | every => search "ok" (Prelude.name "t") (form [Prelude.name "when",
      form [Prelude.name "and", Prelude.name "ok",
        form [Prelude.name "not", form [Prelude.name "pred", Prelude.name "x"]]],
      form [Prelude.name "setq", Prelude.name "ok", .bool false]])
  | some => search "found" .nil (form [Prelude.name "unless", Prelude.name "found",
      form [Prelude.name "let",
        form [form [Prelude.name "v", form [Prelude.name "pred", Prelude.name "x"]]],
        form [Prelude.name "when", Prelude.name "v",
          form [Prelude.name "setq", Prelude.name "found", Prelude.name "v"]]]])
  | sum => form [Prelude.name "reduce", Prelude.name "+", Prelude.name "seq", .num (.int 0)]

end Function

/-- The built-in bindings that these functions use. -/
def builtins : List (Symbol × Value) :=
  [(⟨"not"⟩, .builtin .not), (⟨"apply"⟩, .builtin .apply), (⟨"filter"⟩, .builtin .filter),
    (⟨"reduce"⟩, .builtin .reduce), (⟨"+"⟩, .builtin .add), (⟨"t"⟩, .bool true)]

end Prelude

namespace World

theorem Spine.unique {w : World} {v tail tail' : Value} {cells cells' : List Cell}
    (h : w.Spine v cells tail) (h' : w.Spine v cells' tail') : cells = cells' ∧ tail = tail' := by
  induction h generalizing cells' with
  | stop hv =>
    cases h' with
    | stop => exact ⟨rfl, rfl⟩
    | pair => exact absurd rfl (hv _)
  | pair _ ih =>
    cases h' with
    | stop hv => exact absurd rfl (hv _)
    | pair rest =>
      obtain ⟨rfl, rfl⟩ := ih rest
      exact ⟨rfl, rfl⟩

/-- In all of the worlds the value is the tree, positions aside, and it is made of the
same pairs. -/
inductive Encodes (S : World → Prop) : Value → Datum → Prop where
  | nil : Encodes S .nil .nil
  | bool (b : Bool) : Encodes S (.bool b) (.bool b)
  | num (n : Number) : Encodes S (.num n) (.num n)
  | sym (s : Symbol) : Encodes S (.sym s) (.sym s)
  | pair {r : CellRef} {c : Cell} {pos : Option Pos} {car cdr : Datum}
    (same : ∀ w, S w → w.cell r = c)
      (first : Encodes S c.car car) (rest : Encodes S c.cdr cdr) :
        Encodes S (.cell r) (.cons pos car cdr)

variable {S S' : World → Prop} {w : World} {v : Value}

namespace Encodes

theorem mono {d : Datum} (h : Encodes S v d) (hS : ∀ w, S' w → S w) : Encodes S' v d := by
  induction h with
  | nil => exact .nil
  | bool b => exact .bool b
  | num n => exact .num n
  | sym s => exact .sym s
  | pair same _ _ ihFirst ihRest => exact .pair (fun w hw => same w (hS w hw)) ihFirst ihRest

theorem of_nil (h : Encodes S v .nil) : v = .nil := by
  cases h
  rfl

theorem of_bool {b : Bool} (h : Encodes S v (.bool b)) : v = .bool b := by
  cases h
  rfl

theorem of_num {n : Number} (h : Encodes S v (.num n)) : v = .num n := by
  cases h
  rfl

theorem of_sym {s : Symbol} (h : Encodes S v (.sym s)) : v = .sym s := by
  cases h
  rfl

theorem of_cons {pos : Option Pos} {car cdr : Datum} (h : Encodes S v (.cons pos car cdr)) :
    ∃ r c, v = .cell r ∧ (∀ w, S w → w.cell r = c) ∧ Encodes S c.car car ∧ Encodes S c.cdr cdr := by
  cases h with
  | pair same first rest => exact ⟨_, _, rfl, same, first, rest⟩

theorem founded {d : Datum} (h : Encodes S v d) (hw : S w) : w.Founded v := by
  induction h with
  | @pair r _ _ _ _ same _ _ ihFirst ihRest =>
    refine ⟨_, fun x hx => ?_⟩
    have hx : x ∈ w.held (.cell r) := hx
    rw [held, same w hw] at hx
    rcases List.mem_cons.1 hx with rfl | hx
    · exact ihFirst
    · exact List.mem_singleton.1 hx ▸ ihRest
  | _ => exact ⟨_, fun _ hx => absurd hx List.not_mem_nil⟩

/-- Code that stays in a world stays in all worlds that keep what there is. -/
theorem keeps {d : Datum} (h : Encodes (· = w) v d) (hw : w.Sound) (hv : w.InRange v) :
    Encodes w.Keeps v d := by
  induction h with
  | nil => exact .nil
  | bool b => exact .bool b
  | num n => exact .num n
  | sym s => exact .sym s
  | @pair r c _ _ _ same _ _ ihFirst ihRest =>
    have hc : w.cell r = c := same w rfl
    have hheld := hw.held (.cell r)
    rw [held, hc] at hheld
    refine .pair (fun w' hkeeps => (hkeeps.cell r hv).trans hc) (ihFirst ?_) (ihRest ?_)
    · exact hheld _ List.mem_cons_self
    · exact hheld _ (List.mem_cons_of_mem _ List.mem_cons_self)

/-- A form of code is a list of its parts. -/
theorem listOf {parts : List Datum} (h : Encodes S v (Prelude.form parts)) :
    ∃ vs, List.Forall₂ (Encodes S) vs parts ∧ ∀ w, S w → w.ListOf v vs := by
  have hspine : ∃ cells : List Cell, List.Forall₂ (fun c d => Encodes S c.car d) cells parts ∧
      ∀ w, S w → w.Spine v cells .nil := by
    induction parts generalizing v with
    | nil =>
      cases h
      exact ⟨[], .nil, fun _ _ => .stop nofun⟩
    | cons d parts ih =>
      obtain ⟨r, c, rfl, same, first, rest⟩ := Encodes.of_cons h
      obtain ⟨cells, hparts, hspine⟩ := ih rest
      refine ⟨c :: cells, .cons first hparts, fun w hw => ?_⟩
      have hrest := hspine w hw
      rw [← same w hw] at hrest ⊢
      exact .pair hrest
  obtain ⟨cells, hparts, hspine⟩ := hspine
  refine ⟨cells.map (·.car), List.forall₂_map_left_iff.2 hparts, fun w hw => ?_⟩
  obtain ⟨found, tail, hfound, hshape⟩ := (h.founded hw).spine?
  obtain ⟨rfl, rfl⟩ := hshape.unique (hspine w hw)
  exact ⟨found, hfound, rfl⟩

section
variable {s : String} {d d' d'' : Datum}

/-- A form that begins with a name. -/
theorem call {parts : List Datum} (h : Encodes S v (Prelude.form (Prelude.name s :: parts))) :
    ∃ q forms pos, v = .cell q ∧ (∀ w, S w → w.cell q = ⟨.sym ⟨s⟩, forms, pos⟩) ∧
      Encodes S forms (Prelude.form parts) := by
  obtain ⟨q, ⟨car, cdr, pos⟩, rfl, hq, hhead, hrest⟩ := Encodes.of_cons h
  obtain rfl := hhead.of_sym
  exact ⟨q, cdr, pos, rfl, hq, hrest⟩

/-- A form with one argument. -/
theorem call_one (h : Encodes S v (Prelude.form [Prelude.name s, d])) :
    ∃ q q' e pos pos', v = .cell q ∧ (∀ w, S w → w.cell q = ⟨.sym ⟨s⟩, .cell q', pos⟩) ∧
      (∀ w, S w → w.cell q' = ⟨e, .nil, pos'⟩) ∧ Encodes S e d := by
  obtain ⟨q, _, pos, rfl, hq, hargs⟩ := h.call
  obtain ⟨q', ⟨e, _, pos'⟩, rfl, hq', he, hend⟩ := hargs.of_cons
  obtain rfl := hend.of_nil
  exact ⟨q, q', e, pos, pos', rfl, hq, hq', he⟩

theorem parts_one (h : Encodes S v (Prelude.form [Prelude.name s, d])) :
    ∃ x, Encodes S x d ∧ ∀ w, S w → w.ListOf v [.sym ⟨s⟩, x] := by
  obtain ⟨vs, hparts, hlist⟩ := h.listOf
  obtain _ | ⟨hhead, _ | ⟨hx, ⟨⟩⟩⟩ := hparts
  obtain rfl := hhead.of_sym
  exact ⟨_, hx, hlist⟩

theorem parts_two (h : Encodes S v (Prelude.form [Prelude.name s, d, d'])) :
    ∃ x y, Encodes S x d ∧ Encodes S y d' ∧ ∀ w, S w → w.ListOf v [.sym ⟨s⟩, x, y] := by
  obtain ⟨vs, hparts, hlist⟩ := h.listOf
  obtain _ | ⟨hhead, _ | ⟨hx, _ | ⟨hy, ⟨⟩⟩⟩⟩ := hparts
  obtain rfl := hhead.of_sym
  exact ⟨_, _, hx, hy, hlist⟩

theorem parts_three (h : Encodes S v (Prelude.form [Prelude.name s, d, d', d''])) :
    ∃ x y z, Encodes S x d ∧ Encodes S y d' ∧ Encodes S z d'' ∧
      ∀ w, S w → w.ListOf v [.sym ⟨s⟩, x, y, z] := by
  obtain ⟨vs, hparts, hlist⟩ := h.listOf
  obtain _ | ⟨hhead, _ | ⟨hx, _ | ⟨hy, _ | ⟨hz, ⟨⟩⟩⟩⟩⟩ := hparts
  obtain rfl := hhead.of_sym
  exact ⟨_, _, _, hx, hy, hz, hlist⟩

end

end Encodes

end World

/-! ## The prelude in a world -/

namespace Prelude

/-- In all of the worlds the functions of the prelude are those that were loaded, made of the same
objects, and what they use is what it was: the built-in bindings, the table of macros and the
functions of the prelude themselves. -/
structure Stands (i : Interpreter) (p : Function → ClosureRef) (S : World → Prop) : Prop where
  outermost : ∀ w, S w → (w.frame i.env).outer = none
  macros : ∀ w, S w → w.macros i.macros = BuiltinMacro.table
  builtins : ∀ w, S w → ∀ e ∈ builtins, Bindings.get? e.1 (w.frame i.env).vars = some e.2
  functions : ∀ w, S w → ∀ f, Bindings.get? f.name (w.frame i.env).vars = some (.closure (p f))
  closures : ∀ f, ∃ c : Closure, (∀ w, S w → w.closure (p f) = c) ∧
    c.formals = ⟨f.parameters, [], none⟩ ∧ c.env = i.env ∧ World.Encodes S c.body f.code

/-- Where the functions of the prelude are evaluated. -/
def site (i : Interpreter) (env : FrameRef) : Site := ⟨env, i.macros, some i.macros, .unbounded⟩

theorem site_of (i : Interpreter) (env : FrameRef) : (site i env).Of i := ⟨rfl, rfl⟩

namespace Stands

variable {i : Interpreter} {p : Function → ClosureRef} {S S' : World → Prop} {start w : World}

theorem mono (h : Stands i p S) (hS : ∀ w, S' w → S w) : Stands i p S' where
  outermost w hw := h.outermost w (hS w hw)
  macros w hw := h.macros w (hS w hw)
  builtins w hw := h.builtins w (hS w hw)
  functions w hw := h.functions w (hS w hw)
  closures f := by
    obtain ⟨c, hc, hformals, henv, hcode⟩ := h.closures f
    exact ⟨c, fun w hw => hc w (hS w hw), hformals, henv, hcode.mono hS⟩

theorem standard (h : Stands i p S) (hw : S w) (env : FrameRef) :
    (site i env).Standard w := h.macros w hw

/-- The closures of the prelude exist. -/
theorem inRange (h : Stands i p S) (hw : S w) (hsound : w.Sound) (f : Function) :
    (p f).index < w.closures.size := by
  obtain ⟨e, he, heq⟩ := Invariant.get?_mem (h.functions w hw f)
  have hmem : (Value.closure (p f)) ∈ w.held (.frame i.env) :=
    World.mem_frameValues.2 (.inl (World.mem_entryValues.2 ⟨e, he, .inr heq.symm⟩))
  exact hsound.held _ _ hmem

/-- The root exists, since the functions of the prelude were made in it. -/
theorem root_inRange (h : Stands i p S) (hw : S w) (hsound : w.Sound) :
    i.env.index < w.frames.size := by
  obtain ⟨c, hc, -, henv, -⟩ := h.closures .sum
  have hcaptured := hsound.captured (h.inRange hw hsound .sum)
  rwa [hc w hw, henv] at hcaptured

/-- What a function of the prelude does by itself leaves the prelude as it is. -/
theorem aside (h : Stands i p (· = w)) (hw : w.Sound) : Stands i p (w.Aside w) := by
  have hroot : w.InReach w i.env := .old (h.root_inRange rfl hw)
  have hframe {w' : World} (hw' : w.Aside w w') : w'.frame i.env = w.frame i.env :=
    hw'.frame _ hroot
  have htables {w' : World} (hw' : w.Aside w w') : w'.macroTables = w.macroTables :=
    (congrArg World.macroTables hw'.rest :)
  refine ⟨fun w' hw' => ?_, fun w' hw' => ?_, fun w' hw' => ?_, fun w' hw' => ?_, fun f => ?_⟩
  · rw [hframe hw']
    exact h.outermost w rfl
  · rw [World.macros, htables hw']
    exact h.macros w rfl
  · rw [hframe hw']
    exact h.builtins w rfl
  · rw [hframe hw']
    exact h.functions w rfl
  · obtain ⟨c, hc, hformals, henv, hcode⟩ := h.closures f
    have hexists := h.inRange rfl hw f
    refine ⟨c, fun w' hw' => ?_, hformals, henv, ?_⟩
    · rw [hw'.closure _ hexists, hc w rfl]
    · have hbody : c.body ∈ w.held (.closure (p f)) := by
        rw [World.held_closure hexists, hc w rfl]
        exact World.mem_closureValues.2 (.inr (.inl rfl))
      exact (hcode.keeps hw (hw.held _ _ hbody)).mono fun w' hw' => hw'.toKeeps

/-- The root is the scope that the functions of the prelude are called in. -/
theorem atRoot (h : Stands i p S) (hw : S w) (hsound : w.Sound) (hgrows : start.Grows w) :
    start.AtWork w i.env i.env [] :=
  ⟨hgrows, .root (h.root_inRange hw hsound), .none, Reserve.newFrames_none start,
    Reserve.safe_none hsound,
    nofun⟩

/-- The call of a function of the prelude comes to what its code comes to in the frame that binds
the arguments. The scopes of others stay as they are. -/
theorem called [Host] (h : Stands i p S) (hw : S w) (hsound : w.Sound) (hgrows : start.Grows w)
    (f : Function) (args : List Value) (named : List (Symbol × Value))
    (hnamed : ∀ e ∈ named, w.InRange e.2)
    (hbind : ∀ name, ((⟨f.parameters, [], none⟩ : ParameterList).bind args i.env name).run w =
      .ok ⟨w.frames.size⟩ (w.addFrame ⟨Bindings.ofNames named, some i.env⟩).2) :
    ∃ body w₁, start.Aside w w₁ ∧
      start.AtWork w₁ i.env ⟨w.frames.size⟩ [(⟨w.frames.size⟩, Bindings.ofNames named)] ∧
      (∀ env frames, w.Scope i.env env frames → w₁.Scope i.env env frames) ∧
      World.Encodes S body f.code ∧ w.InRange body ∧
      Run.Matches (fun n => call n (site i i.env) (.closure (p f)) args) w
        ((site i ⟨w.frames.size⟩).valueRuns body) w₁ := by
  obtain ⟨c, hc, hformals, henv, hbody⟩ := h.closures f
  obtain ⟨haside, hwork⟩ := (h.atRoot hw hsound hgrows).opened named hnamed
  have hrange : c.body ∈ w.held (.closure (p f)) := by
    rw [World.held_closure (h.inRange hw hsound f), hc w hw]
    exact World.mem_closureValues.2 (.inr (.inl rfl))
  have hcalled :
    ((w.closure (p f)).formals.bind args (w.closure (p f)).env (w.closure (p f)).name).run w
      = .ok ⟨w.frames.size⟩ (w.addFrame ⟨Bindings.ofNames named, some i.env⟩).2 := by
    rw [hc w hw, hformals, henv]
    exact hbind _
  refine ⟨c.body, _, haside, hwork, fun _ _ hscope => hscope.of_addFrame _, hbody,
    hsound.held _ _ hrange, ?_⟩
  exact Site.matches_closure (site_of i i.env) rfl hcalled (congrArg Closure.body (hc w hw))

end Stands

end Prelude

end TemplateLisp
