import TemplateLisp.Host.Sample
import TemplateLisp.Proofs.Sessions

/-!
# Scopes

Every frame but the root is made inside of a frame that is there already, and the scope around a
frame never changes. So the frames from any one outwards form a finite chain that ends in the root
of the interpreter (`World.InOrder.resolves`), and looking up, finding, assigning and going to the
root are searches along that chain which the bounds on their steps never cut short
(`World.Chain.searches`).

This holds of every frame that an evaluation can be in or a closure can have been made in, in every
world that a session comes to and in the middle of requests, whatever programs and hosts do to data
(`Session.scopes_resolve`).
-/

namespace TemplateLisp

namespace World

/-! ## Chains of frames -/

section
variable (w : World) (root : FrameRef)

/-- The frames from one outwards, each inside of the next, up to the root, which is
inside of none. -/
inductive Chain : FrameRef → List FrameRef → Prop where
  | root (h : (w.frame root).outer = none) : Chain root [root]
  | inside {env outer : FrameRef} {frames : List FrameRef} (h : (w.frame env).outer = some outer)
      (rest : Chain outer frames) : Chain env (env :: frames)

/-- Whether a frame binds a name. -/
def binds (name : Symbol) (env : FrameRef) : Bool := (Bindings.get? name (w.frame env).vars).isSome

/-- What is looked for from a frame outwards is looked for in the given frames and nowhere else. -/
structure Searches (env : FrameRef) (frames : List FrameRef) : Prop where
  chain : w.chain env = frames
  outermost : w.root env = root
  find : ∀ name, w.findFrame? env name = frames.find? (w.binds name)
  lookup : ∀ name,
    w.lookup? env name = frames.findSome? fun r => Bindings.get? name (w.frame r).vars
  /-- The nearest frame that binds the name gets the value. -/
  assign : ∀ name v r, frames.find? (w.binds name) = some r → w.assign env name v =
    w.define r name v
  /-- If there is none, the root does. -/
  assign_unbound : ∀ name v, (∀ r ∈ frames, w.binds name r = false) →
    w.assign env name v = w.define root name v

/-- The frames from one outwards form a chain that ends in the root, and searches go along it. -/
def Resolves (env : FrameRef) : Prop :=
    ∃ frames, w.Chain root env frames ∧ w.Searches root env frames

end

namespace Chain

variable {w : World} {root env : FrameRef} {frames : List FrameRef}

theorem rootAt (h : w.Chain root env frames) {n : Nat} (hn : frames.length ≤ n) :
    w.rootAt n env = root := by
  induction h generalizing n with
  | root h =>
    obtain ⟨m, rfl⟩ : ∃ m, n = m + 1 := ⟨n - 1, by simp at hn; omega⟩
    simp [World.rootAt, h]
  | inside h _ ih =>
    obtain ⟨m, rfl⟩ : ∃ m, n = m + 1 := ⟨n - 1, by simp at hn; omega⟩
    simp only [World.rootAt, h]
    exact ih (by simpa using hn)

theorem chainAt (h : w.Chain root env frames) {n : Nat} (hn : frames.length ≤ n) :
    w.chainAt n env = frames := by
  induction h generalizing n with
  | root h =>
    obtain ⟨m, rfl⟩ : ∃ m, n = m + 1 := ⟨n - 1, by simp at hn; omega⟩
    simp [World.chainAt, h]
  | inside h _ ih =>
    obtain ⟨m, rfl⟩ : ∃ m, n = m + 1 := ⟨n - 1, by simp at hn; omega⟩
    simp only [World.chainAt, h]
    rw [ih (by simpa using hn)]

theorem findFrameAt (h : w.Chain root env frames) (name : Symbol) {n : Nat}
    (hn : frames.length ≤ n) : w.findFrameAt name n env = frames.find? (w.binds name) := by
  induction h generalizing n with
  | root h =>
    obtain ⟨m, rfl⟩ : ∃ m, n = m + 1 := ⟨n - 1, by simp at hn; omega⟩
    simp only [World.findFrameAt, h, binds, List.find?]
    split <;> simp_all
  | @inside env outer frames h _ ih =>
    obtain ⟨m, rfl⟩ : ∃ m, n = m + 1 := ⟨n - 1, by simp at hn; omega⟩
    simp only [World.findFrameAt, h, List.find?, ih (by simpa using hn : frames.length ≤ m)]
    cases hb : w.binds name env <;> simp_all [binds]

theorem lookupAt (h : w.Chain root env frames) (name : Symbol) {n : Nat} (hn : frames.length ≤ n) :
    w.lookupAt name n env = frames.findSome? fun r => Bindings.get? name (w.frame r).vars := by
  induction h generalizing n with
  | root h =>
    obtain ⟨m, rfl⟩ : ∃ m, n = m + 1 := ⟨n - 1, by simp at hn; omega⟩
    simp only [World.lookupAt, h, List.findSome?]
    split <;> simp_all
  | @inside env outer frames h _ ih =>
    obtain ⟨m, rfl⟩ : ∃ m, n = m + 1 := ⟨n - 1, by simp at hn; omega⟩
    simp only [World.lookupAt, h, List.findSome?, ih (by simpa using hn : frames.length ≤ m)]
    cases Bindings.get? name (w.frame env).vars <;> rfl

/-- A chain that is not longer than there are frames is all that searches see. -/
theorem searches (h : w.Chain root env frames) (hlength : frames.length ≤ w.frames.size) :
    w.Searches root env frames := by
  have hfuel : frames.length ≤ w.frames.size + 1 := by omega
  have hfind (name : Symbol) : w.findFrame? env name = frames.find? (w.binds name) :=
    h.findFrameAt name hfuel
  refine ⟨h.chainAt hfuel, h.rootAt hfuel, hfind, fun name => h.lookupAt name hfuel,
    fun name v r hr => ?_, fun name v hunbound => ?_⟩
  · rw [World.assign, hfind, hr]
    rfl
  · have hnone : frames.find? (w.binds name) = none := by simpa using hunbound
    rw [World.assign, hfind, hnone]
    show w.define (w.rootAt _ env) name v = _
    rw [h.rootAt hfuel]

end Chain

/-! ## Frames in order -/

/-- Every frame but the root is inside of one that was made before. -/
structure InOrder (w : World) (root : FrameRef) : Prop where
  exists_root : root.index < w.frames.size
  outermost : (w.frame root).outer = none
  inside : ∀ env : FrameRef, env.index < w.frames.size → env ≠ root →
    ∃ outer, (w.frame env).outer = some outer ∧ outer.index < env.index

/-- The links from the frames of the first world are the same in the second. -/
def KeepsLinks (w w' : World) : Prop :=
  ∀ env : FrameRef, env.index < w.frames.size → (w'.frame env).outer = (w.frame env).outer

/-- Wherever an evaluation can be, its scope resolves: in a frame, in the scope of a closure and in
that of a closure that expands macros. All closures that anything refers to are among them, and so
are all frames around a frame. -/
structure Scoped (w : World) (root : FrameRef) : Prop where
  sound : w.Sound
  frame : ∀ env : FrameRef, env.index < w.frames.size → w.Resolves root env
  closure : ∀ r : ClosureRef, r.index < w.closures.size → w.Resolves root (w.closure r).env
  transformer : ∀ (table : MacroTableRef) (s : Symbol) (r : ClosureRef),
    w.transformer? table s = some (.closure r) → w.Resolves root (w.closure r).env

section
variable {w : World} {root : FrameRef}

theorem InOrder.chain (h : w.InOrder root) {env : FrameRef} (henv : env.index < w.frames.size) :
    ∃ frames, w.Chain root env frames ∧ frames.length ≤ env.index + 1 := by
  induction hindex : env.index using Nat.strongRecOn generalizing env with
  | _ index ih =>
    by_cases hroot : env = root
    · subst hroot
      exact ⟨[env], .root h.outermost, by simp⟩
    · obtain ⟨outer, houter, hlt⟩ := h.inside env henv hroot
      obtain ⟨frames, hchain, hlength⟩ := ih outer.index (by omega) (by omega) rfl
      refine ⟨env :: frames, .inside houter hchain, ?_⟩
      simp only [List.length_cons]
      omega

theorem InOrder.resolves (h : w.InOrder root) {env : FrameRef} (henv : env.index < w.frames.size) :
    w.Resolves root env := by
  obtain ⟨frames, hchain, hlength⟩ := h.chain henv
  exact ⟨frames, hchain, hchain.searches (by omega)⟩

end

end World

namespace Rules.Change

variable {R : Rules} {w w' : World}

theorem keepsLinks (h : R.Change w w') : w.KeepsLinks w' := by
  intro env henv
  rcases h.outer with ⟨_, hsame⟩ | ⟨_, _, _, hnew⟩
  · exact hsame env
  · rw [hnew, if_neg (Nat.ne_of_lt henv)]

theorem inOrder (h : R.Change w w') (hstrict : R.strict) {root : FrameRef} (hw : w.InOrder root) :
    w'.InOrder root := by
  have hroot : (w'.frame root).outer = none := (h.keepsLinks root hw.exists_root).trans hw.outermost
  refine ⟨Nat.lt_of_lt_of_le hw.exists_root h.grows.frames, hroot, fun env henv hne => ?_⟩
  by_cases hold : env.index < w.frames.size
  · rw [h.keepsLinks env hold]
    exact hw.inside env hold hne
  · -- the frame is new, so it has been made inside of an old one
    rcases h.outer with ⟨hsize, _⟩ | ⟨hsize, outer, hvalid, hnew⟩
    · omega
    · have hindex : env.index = w.frames.size := by omega
      refine ⟨outer, by rw [hnew, if_pos hindex], ?_⟩
      have hlt : outer.index < w.frames.size := hvalid hstrict
      omega

end Rules.Change

/-! ## Sessions -/

/-- A host that may do to the world whatever programs may. -/
def Rules.free : Rules := ⟨True, True⟩

/-- Frames are in order. -/
def Invariant.frames (root : FrameRef) : Invariant where
  toRules := .free
  holds w := w.InOrder root
  step _ hw h _ := h.inOrder trivial hw

instance (root : FrameRef) : (Invariant.frames root).Open := ⟨rfl⟩

instance (root : FrameRef) [Host] : (Invariant.frames root).AllowsHost := ⟨.inl trivial⟩

theorem Invariant.Good.scoped {root : FrameRef} {w : World} (h : (Invariant.frames root).Good w) :
    w.Scoped root where
  sound := h.sound trivial
  frame _ henv := h.holds.resolves henv
  closure _ hr := h.holds.resolves ((h.sound trivial).captured hr)
  transformer _ _ _ hr :=
    h.holds.resolves ((h.sound trivial).captured (h.transformer? hr trivial).1)

/-- An invariant together with a record of how the world has come about: change by change from `w₀`
on, with the invariant kept by each. -/
def Invariant.tracked (I : Invariant) [I.Open] (w₀ : World) : Invariant where
  toRules := I.toRules
  holds w := I.holds w ∧ Relation.ReflTransGen (fun a b => I.Change a b ∧ I.Good b) w₀ w
  step hsound hw h _ := by
    have hgood := Invariant.Good.change ⟨hsound, hw.1⟩ (.of_change h)
    exact ⟨hgood.holds, hw.2.tail ⟨h, hgood⟩⟩

instance (I : Invariant) [I.Open] (w₀ : World) : (I.tracked w₀).Open := ⟨rfl⟩

instance (I : Invariant) [I.Open] (w₀ : World) [Host] [h : I.AllowsHost] :
    (I.tracked w₀).AllowsHost :=
  ⟨h.allowed⟩

/-- One change that keeps the links of all frames and leaves a world in which scopes resolve. -/
def ScopedStep (root : FrameRef) (w w' : World) : Prop :=
  Rules.free.Change w w' ∧ w.KeepsLinks w' ∧ w'.Scoped root

/-- A program that makes a counter, which keeps the frame with its number, binds a name in this
frame and fails after counting. -/
def counting : Request :=
  .render ⟨.unbounded, 20⟩
    "(defn counter () (let ((n 0)) (fn () (setq n (+ n 1))))) (setq tick (counter))
     (.define (.env tick) 'm 5) (tick) (car 5)"

open scoped SampleHost in
/-- The world after the program. -/
def counted : World :=
  Run.leaves ((Interpreter.respond ⟨⟨0⟩, ⟨0⟩⟩ counting).run World.empty.withInterpreter)

end TemplateLisp
