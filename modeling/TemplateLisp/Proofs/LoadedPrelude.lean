import TemplateLisp.Proofs.CallTraces
import TemplateLisp.Proofs.PreludeCode
import TemplateLisp.Proofs.ReservesKept
import TemplateLisp.Proofs.Sessions

/-!
# Loading the prelude

A new interpreter that loads the text of the prelude has the functions whose code the proofs are
about, and what they use is what it was (`Prelude.loaded`).
-/

namespace TemplateLisp

/-- Whether the value is the tree, positions aside. -/
def World.isCode (w : World) : Value → Datum → Bool
  | .nil, .nil => true
  | .bool b, .bool b' => b == b'
  | .num n, .num n' => n == n'
  | .sym s, .sym s' => s == s'
  | .cell r, .cons _ car cdr => w.isCode (w.cell r).car car && w.isCode (w.cell r).cdr cdr
  | _, _ => false

theorem World.Encodes.of_isCode {w : World} {v : Value} {d : Datum} (h : w.isCode v d = true) :
    World.Encodes (· = w) v d := by
  induction v, d using World.isCode.induct w with
  | case1 => exact .nil
  | case2 b b' =>
    obtain rfl := eq_of_beq h
    exact .bool b
  | case3 n n' =>
    obtain rfl := eq_of_beq h
    exact .num n
  | case4 s s' =>
    obtain rfl := eq_of_beq h
    exact .sym s
  | case5 r pos car cdr ihCar ihCdr =>
    rw [World.isCode, Bool.and_eq_true] at h
    exact .pair (fun w' hw' => by rw [hw']) (ihCar h.1) (ihCdr h.2)
  | case6 => simp_all [World.isCode]

/-! ## Loading by characters -/

section
variable [Host]

/-- Loads the text that is made of the characters. -/
def Interpreter.loadChars (i : Interpreter) (limits : Limits) (source : List Char) : Run Unit := do
  let lexed := lex source
  match Parser.all lexed.fault limits.room (Parser.fuelFor lexed.tokens)
    (lexed.tokens.length + 1) []
    lexed.tokens with
  | .ok forms =>
    let values ← Run.make fun w => w.loadItems [] forms
    discard <| Run.orStackOverflow (i.evalForms limits .nil values)
  | .error f => throw (Run.ofReadFailure f)

theorem Interpreter.load_ofList (i : Interpreter) (limits : Limits) (source : List Char) :
    i.load limits (String.ofList source) = i.loadChars limits source := by
  rw [Interpreter.load, Run.read, TemplateLisp.read, String.toList_ofList, Interpreter.loadChars]
  cases Parser.all _ _ _ _ _ _ <;> rfl

omit [Host] in
/-- Lines make up the text of their characters. -/
theorem joinedLines_ofList {lines : List String} {spelled : List (List Char)}
    (h : List.Forall₂ (fun line characters => line = String.ofList characters) lines spelled) :
    String.join (lines.map (· ++ "\n")) = String.ofList (spelled.flatMap (· ++ ['\n'])) := by
  refine String.toList_injective ?_
  rw [String.toList_join, String.toList_ofList, List.flatMap_map]
  induction h with
  | nil => rfl
  | cons hline _ ih =>
    rw [List.flatMap_cons, List.flatMap_cons, ih, hline, String.toList_append, String.toList_ofList]
    rfl

omit [Host] in
/-- Whether the run gives something and comes to a world that passes the test. -/
def Run.leadsTo {α : Type} (x : Run α) (w : World) (test : World → Bool) : Bool :=
  match x.run w with
  | .ok _ w' => test w'
  | .error .. => false

omit [Host] in
theorem Run.exists_of_leadsTo {α : Type} {x : Run α} {w : World} {test : World → Bool}
    (h : x.leadsTo w test = true) : ∃ a w', x.run w = .ok a w' ∧ test w' = true := by
  rw [leadsTo] at h
  cases hrun : x.run w with
  | ok a w' =>
    rw [hrun] at h
    exact ⟨a, w', rfl, h⟩
  | error s w' =>
    rw [hrun] at h
    cases h

instance (w : World) : (Invariant.untouched .none w).Open := ⟨rfl⟩

/-- Loading leaves everything that is referred to in existence. -/
theorem Interpreter.load_sound {i : Interpreter} {limits : Limits} {source : String} {w w' : World}
    (hw : w.Sound) (henv : i.env.index < w.frames.size)
    (h : (i.load limits source).run w = .ok () w') : w'.Sound := by
  have hkeeps : (Invariant.untouched .none w).Keeps w Invariant.Anything
    (i.respond (.load limits source)) :=
    Invariant.Agree.respond trivial (fun _ => Reserve.admits_none_iff (v := .env i.env).2 henv)
      trivial trivial
  have hends := (hkeeps (Reserve.safe_none hw).good).2
  rw [Interpreter.respond, h] at hends
  exact hends.2.1.sound trivial

theorem Interpreter.create_one {i : Interpreter} {limits : Limits} {source : String} {w w' : World}
    (hi : i = ⟨⟨w.frames.size⟩, ⟨w.macroTables.size⟩⟩)
    (h : (i.load limits source).run w.withInterpreter = .ok () w') :
    (Interpreter.create limits [source]).run w = .ok i w' := by
  have hall : (i.loadAll limits [source]).run w.withInterpreter = .ok () w' := by
    rw [Interpreter.loadAll, EStateM.run_bind, h]
    rfl
  rw [Interpreter.create, EStateM.run_bind, Interpreter.bare_run]
  dsimp only
  rw [← hi, EStateM.run_bind, hall]
  rfl

end

/-! ## The functions of the prelude -/

namespace Prelude

/-- All functions. -/
def Function.all : List Function := [.complement, .remove, .every, .some, .sum]

theorem Function.mem_all (f : Function) : f ∈ Function.all := by
  cases f <;> simp [Function.all]

/-- The closures that the prelude makes, in their order. -/
def loadedClosures : Function → ClosureRef
  | .complement => ⟨1⟩
  | .remove => ⟨2⟩
  | .every => ⟨3⟩
  | .some => ⟨4⟩
  | .sum => ⟨5⟩

/-- Whether the functions of the prelude and what they use are in the world. -/
def isLoaded (i : Interpreter) (p : Function → ClosureRef) (w : World) : Bool :=
  (w.frame i.env).outer == none && decide (w.macros i.macros = BuiltinMacro.table) &&
  builtins.all (fun e => Bindings.get? e.1 (w.frame i.env).vars == some e.2) &&
  Function.all.all fun f =>
    Bindings.get? f.name (w.frame i.env).vars == some (.closure (p f)) &&
    decide ((w.closure (p f)).formals = ⟨f.parameters, [], none⟩) &&
      (w.closure (p f)).env == i.env &&
    w.isCode (w.closure (p f)).body f.code

theorem Stands.of_isLoaded {i : Interpreter} {p : Function → ClosureRef} {w : World}
    (h : isLoaded i p w = true) : Stands i p (· = w) := by
  simp only [isLoaded, Bool.and_eq_true, beq_iff_eq, decide_eq_true_eq, List.all_eq_true] at h
  obtain ⟨⟨⟨houtermost, hmacros⟩, hbuiltins⟩, hfunctions⟩ := h
  refine ⟨?_, ?_, ?_, ?_, fun f => ?_⟩
  · rintro _ rfl
    exact houtermost
  · rintro _ rfl
    exact hmacros
  · rintro _ rfl
    exact hbuiltins
  · rintro _ rfl f
    exact (hfunctions f f.mem_all).1.1.1
  · obtain ⟨⟨⟨-, hformals⟩, henv⟩, hbody⟩ := hfunctions f f.mem_all
    exact ⟨w.closure (p f), fun w' hw' => by rw [hw'], hformals, henv, .of_isCode hbody⟩

/-- A new interpreter. -/
def newInterpreter : Interpreter := ⟨⟨0⟩, ⟨0⟩⟩

open scoped SampleHost in
/-- A new interpreter that loads the prelude has its functions. -/
theorem loaded : ∃ w, (Interpreter.create ⟨.unbounded, 50⟩ [prelude]).run World.empty =
    .ok newInterpreter w ∧ w.Sound ∧ Stands newInterpreter loadedClosures (· = w) := by
  have hspelt {spelled : List (List Char)}
      (hlines : List.Forall₂ (fun line characters => line = String.ofList characters)
        preludeLines spelled)
      (hloaded : (newInterpreter.loadChars ⟨.unbounded, 50⟩ (spelled.flatMap (· ++ ['\n']))).leadsTo
        World.empty.withInterpreter (isLoaded newInterpreter loadedClosures) = true) : ∃ w,
      (newInterpreter.load ⟨.unbounded, 50⟩ prelude).run World.empty.withInterpreter = .ok () w ∧
        isLoaded newInterpreter loadedClosures w = true := by
    rw [prelude, joinedLines_ofList hlines, Interpreter.load_ofList]
    obtain ⟨_, w, hrun, hw⟩ := Run.exists_of_leadsTo hloaded
    exact ⟨w, hrun, hw⟩
  obtain ⟨w, hload, hloaded⟩ := hspelt (by repeat constructor) (by decide +kernel)
  exact ⟨w, Interpreter.create_one rfl hload, Interpreter.load_sound
    World.isHost_empty.withInterpreter_sound (by decide) hload, .of_isLoaded hloaded⟩

end Prelude

end TemplateLisp
