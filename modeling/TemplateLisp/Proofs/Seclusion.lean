import TemplateLisp.Proofs.CallPaths
import TemplateLisp.Proofs.FormOutcomes
import TemplateLisp.Proofs.ReservesKept

/-!
# Frames out of reach

A function that is in the middle of its work can rely on its own frames whatever the functions that
it calls do, as long as nothing leads to these frames: no object has the environment or the
variables of one of them, and no frame that can be got at does (`World.InReach`). Frames of this
kind can be put into a reserve as they are made (`Reserve.Safe.adding`), and a call leaves them as
they are and out of reach (`Reserve.Safe.afterCall`). So it is with a closure that nothing refers
to.

What a function does by itself between two calls is of no consequence for calls as long as it only
makes objects and changes frames that are out of reach (`World.Aside`).
-/

namespace TemplateLisp

/-- The frame that a value is the environment or the variables of. -/
def Value.frame? : Value → Option FrameRef
  | .env r | .map (.vars r) => some r
  | _ => none

theorem Value.frame?_eq_some {v : Value} {env : FrameRef} :
    v.frame? = some env ↔ v = .env env ∨ v = .map (.vars env) := by
  cases v with
  | map r => cases r <;> simp [frame?]
  | _ => simp [frame?]

namespace World

/-- The frame was there in the world `start`, or something leads to it: an object, or a frame of
which this is true. -/
inductive InReach (start w : World) : FrameRef → Prop where
  | old {env : FrameRef} (older : env.index < start.frames.size) : InReach start w env
  | held {place : Holder} {v : Value} {env : FrameRef}
    (reach : ∀ r, place = .frame r → InReach start w r)
      (holds : v ∈ w.held place) (leads : v.frame? = some env) : InReach start w env

variable {start w w' w'' : World} {s : Reserve} {env : FrameRef}

theorem InReach.inRange (h : start.InReach w env) (hw : w.Sound) (hgrows : start.Grows w) :
    env.index < w.frames.size := by
  cases h with
  | old older => exact Nat.lt_of_lt_of_le older hgrows.frames
  | held _ holds leads =>
    have hrange := hw.held _ _ holds
    rcases Value.frame?_eq_some.1 leads with rfl | rfl
    · exact hrange
    · exact hrange

/-- A frame that nothing from outside of a reserve of new frames leads to is out of reach. -/
theorem InReach.not_reserved (h : start.InReach w env) (hs : s.Safe w) (hnewer : s.Newer start)
    (honly : ∀ place, s.Covers place → ∃ r, place = .frame r) : ¬ s.frames env := by
  induction h with
  | old older => exact fun hr => Nat.not_lt.2 (hnewer.frames _ hr) older
  | @held place v env _ holds leads ih =>
    have hplace : ¬ s.Covers place := by
      intro hcovers
      obtain ⟨r, rfl⟩ := honly place hcovers
      exact ih r rfl hcovers
    have hadmits := hs.apart.held place hplace v holds
    rcases Value.frame?_eq_some.1 leads with rfl | rfl
    · exact hadmits.2
    · exact hadmits.2

/-! ## What calls do not notice -/

/-- Objects have been made, and frames may have changed that nothing leads to and that were not
there in the world `start`; nothing else is different. -/
structure Aside (start w w' : World) : Prop extends w.Keeps w' where
  closure : ∀ r : ClosureRef, r.index < w.closures.size → w'.closure r = w.closure r
  frame : ∀ env, start.InReach w env → w'.frame env = w.frame env
  rest : { w' with cells := w.cells, vectors := w.vectors, maps := w.maps, closures := w.closures,
                   frames := w.frames } = w

@[refl] theorem Aside.refl (start w : World) : start.Aside w w :=
  ⟨.refl w, fun _ _ => rfl, fun _ _ => rfl, rfl⟩

/-- What is not a frame out of reach holds what it held. -/
theorem Aside.held (h : start.Aside w w') {place : Holder} (hplace : place ∈ w.places)
    (hreach : ∀ r, place = .frame r → start.InReach w r) : w'.held place = w.held place := by
  have hexists := mem_places.1 hplace
  cases place with
  | cell r => rw [World.held, h.cell r hexists, World.held]
  | vector r => exact h.vector r hexists
  | tuple r => exact h.tuple r hexists
  | map index => rw [World.held, h.entries index hexists, World.held]
  | closure r =>
    rw [held_closure hexists, held_closure (Nat.lt_of_lt_of_le hexists h.closures),
      h.closure r hexists]
  | frame r => rw [World.held, h.frame r (hreach r rfl), World.held]
  | _ =>
    rw [← h.rest]
    rfl

theorem Aside.inReach (h : start.Aside w w') (henv : start.InReach w env) :
    start.InReach w' env := by
  induction henv with
  | old older => exact .old older
  | @held place v env reach holds leads ih =>
    have hplace : place ∈ w.places := by
      by_contra hplace
      rw [eq_nil_of_not_mem_places hplace holds] at leads
      cases leads
    exact .held ih (h.held hplace reach ▸ holds) leads

theorem Aside.trans (h : start.Aside w w') (h' : start.Aside w' w'') : start.Aside w w'' where
  toKeeps := h.toKeeps.trans h'.toKeeps
  closure r hr := by
    rw [h'.closure r (Nat.lt_of_lt_of_le hr h.closures), h.closure r hr]
  frame env henv := by rw [h'.frame env (h.inReach henv), h.frame env henv]
  rest := by rw [← h.rest, ← h'.rest]

theorem Aside.of_extends (h : w.Extends w') : start.Aside w w' where
  toKeeps := h.toKeeps
  closure r _ := by rw [World.closure, h.closures_eq, World.closure]
  frame env _ := by rw [World.frame, h.frames_eq, World.frame]
  rest := by
    rw [← h.rest]

theorem aside_addFrame (vars : Bindings) (outer : FrameRef) (hw : w.Sound)
    (hgrows : start.Grows w) :
    start.Aside w (w.addFrame ⟨vars, some outer⟩).2 where
  toKeeps := (Rules.Change.frame (R := ⟨False, False⟩) (fun _ _ => ⟨nofun, nofun⟩) nofun).keeps id
  closure _ _ := rfl
  frame env henv := by rw [frame_addFrame, if_neg (Nat.ne_of_lt (henv.inRange hw hgrows))]
  rest := rfl

theorem aside_define (name : Symbol) (v : Value) (henv : ¬ start.InReach w env) :
    start.Aside w (w.define env name v) where
  toKeeps := (Rules.Change.define (R := ⟨False, False⟩) nofun).keeps id
  closure _ _ := rfl
  frame r hr := by
    rw [frame_define, if_neg]
    rintro ⟨hindex, -⟩
    obtain rfl : r = env := congrArg FrameRef.mk hindex
    exact henv hr
  rest := rfl

theorem aside_addClosure (c : Closure) : start.Aside w (w.addClosure c).2 where
  toKeeps := (Rules.Change.closure (R := ⟨False, False⟩) nofun nofun nofun).keeps id
  closure r hr := by rw [closure_addClosure, if_neg (Nat.ne_of_lt hr)]
  frame _ _ := rfl
  rest := rfl

end World

/-! ## New objects in reserve -/

namespace Reserve

variable {s : Reserve} {w w' : World} {place : World.Holder}

/-- The reserve with one more object. -/
def adding (s : Reserve) (place : World.Holder) : Reserve where
  cells r := s.cells r ∨ place = .cell r
  vectors r := s.vectors r ∨ place = .vector r
  maps index := s.maps index ∨ place = .map index
  closures r := s.closures r ∨ place = .closure r
  frames r := s.frames r ∨ place = .frame r

theorem Covers.adding {p : World.Holder} (h : s.Covers p) (place : World.Holder) :
    (s.adding place).Covers p := by
  cases p with
  | cell | vector | map | closure | frame => exact .inl h
  | _ => cases h

/-- An object that was not there before may be put into a reserve of such objects. -/
theorem Newer.adding {start : World} (h : s.Newer start) (hplace : place ∉ start.places) :
    (s.adding place).Newer start where
  cells r hr := hr.elim (h.cells r) fun hp => by
    rw [hp, World.mem_places] at hplace
    exact Nat.not_lt.1 hplace
  vectors r hr := hr.elim (h.vectors r) fun hp => by
    rw [hp, World.mem_places] at hplace
    exact Nat.not_lt.1 hplace
  maps index hr := hr.elim (h.maps index) fun hp => by
    rw [hp, World.mem_places] at hplace
    exact Nat.not_lt.1 hplace
  closures r hr := hr.elim (h.closures r) fun hp => by
    rw [hp, World.mem_places] at hplace
    exact Nat.not_lt.1 hplace
  frames r hr := hr.elim (h.frames r) fun hp => by
    rw [hp, World.mem_places] at hplace
    exact Nat.not_lt.1 hplace

/-- What there was outside of the reserve is not the new object. -/
theorem Admits.adding {v : Value} (h : s.Admits w v) (hgrows : w.Grows w')
    (hnew : place ∉ w.places) : (s.adding place).Admits w' v := by
  have hrange := h.inRange.mono hgrows
  have hother {p : World.Holder} (hp : p ∈ w.places) : place ≠ p := fun heq => hnew (heq ▸ hp)
  cases v with
  | cell r => exact ⟨hrange, not_or.2 ⟨h.2, hother (World.mem_places.2 h.1)⟩⟩
  | vector r => exact ⟨hrange, not_or.2 ⟨h.2, hother (World.mem_places.2 h.1)⟩⟩
  | closure r => exact ⟨hrange, not_or.2 ⟨h.2, hother (World.mem_places.2 h.1)⟩⟩
  | env r => exact ⟨hrange, not_or.2 ⟨h.2, hother (World.mem_places.2 h.1)⟩⟩
  | map r => cases r <;> exact ⟨hrange, not_or.2 ⟨h.2, hother (World.mem_places.2 h.1)⟩⟩
  | _ => exact hrange

/-- An object that has just been made may be put into the reserve: nothing refers to it. -/
theorem Safe.adding (h : s.Safe w) (hgrows : w.Grows w') (hsound : w'.Sound)
    (hnew : place ∉ w.places) (hmade : place ∈ w'.places) (hcovers : (s.adding place).Covers place)
    (hheld : ∀ p, p ≠ place → w'.held p = w.held p) : (s.adding place).Safe w' where
  sound := hsound
  apart :=
    { cells := fun r hr => hr.elim (fun hs => Nat.lt_of_lt_of_le (h.apart.cells r hs) hgrows.cells)
        fun hp => World.mem_places.1 (hp ▸ hmade)
      vectors :=
        fun r hr => hr.elim (fun hs => Nat.lt_of_lt_of_le (h.apart.vectors r hs) hgrows.vectors)
        fun hp => World.mem_places.1 (hp ▸ hmade)
      maps := fun r hr => hr.elim (fun hs => Nat.lt_of_lt_of_le (h.apart.maps r hs) hgrows.maps)
        fun hp => World.mem_places.1 (hp ▸ hmade)
      closures :=
        fun r hr => hr.elim (fun hs => Nat.lt_of_lt_of_le (h.apart.closures r hs) hgrows.closures)
        fun hp => World.mem_places.1 (hp ▸ hmade)
      frames :=
        fun r hr => hr.elim (fun hs => Nat.lt_of_lt_of_le (h.apart.frames r hs) hgrows.frames)
        fun hp => World.mem_places.1 (hp ▸ hmade)
      held := fun p hp v hv => by
        rw [hheld p fun heq => hp (heq ▸ hcovers)] at hv
        exact (h.apart.held p (fun hs => hp (hs.adding place)) v hv).adding hgrows hnew }

variable {vars : Bindings} {outer : FrameRef}

/-- A frame that has just been made, which may be inside of a frame of the reserve. -/
theorem Safe.addFrame (h : s.Safe w) (hvars : ∀ v ∈ World.entryValues vars, w.InRange v)
    (houter : outer.index < w.frames.size) :
    (s.adding (.frame ⟨w.frames.size⟩)).Safe (w.addFrame ⟨vars, some outer⟩).2 := by
  have hchange : (Rules.mk True True).Change w (w.addFrame ⟨vars, some outer⟩).2 :=
    .frame (fun e he => ⟨fun _ => hvars _ (World.mem_entryValues.2 ⟨e, he, .inl rfl⟩),
      fun _ => hvars _ (World.mem_entryValues.2 ⟨e, he, .inr rfl⟩)⟩) fun _ => houter
  refine h.adding hchange.grows (hchange.sound trivial h.sound)
    (fun hp => Nat.lt_irrefl _ (World.mem_places.1 hp)) (World.mem_places.2 ?_)
      (.inr rfl) fun p hp => ?_
  · show w.frames.size < (w.frames.push _).size
    rw [Array.size_push]
    exact Nat.lt_succ_self _
  · cases p with
    | frame r =>
      have hr : r.index ≠ w.frames.size := fun heq =>
        hp (congrArg (fun i => World.Holder.frame ⟨i⟩) heq)
      rw [World.held, World.frame_addFrame, if_neg hr, World.held]
    | _ => rfl

/-- A closure that has just been made, whose frame may be in the reserve. -/
theorem Safe.addClosure (h : s.Safe w) {c : Closure} (hc : ∀ v ∈ World.closureValues c,
    w.InRange v) :
    (s.adding (.closure ⟨w.closures.size⟩)).Safe (w.addClosure c).2 := by
  have hchange : (Rules.mk True True).Change w (w.addClosure c).2 :=
    .closure (fun _ => hc _ (World.mem_closureValues.2 (.inl rfl)))
      (fun _ => hc _ (World.mem_closureValues.2 (.inr (.inl rfl))))
      fun _ => hc _ (World.mem_closureValues.2 (.inr (.inr rfl)))
  refine h.adding hchange.grows (hchange.sound trivial h.sound)
    (fun hp => Nat.lt_irrefl _ (World.mem_places.1 hp)) (World.mem_places.2 ?_)
      (.inr rfl) fun p hp => ?_
  · show w.closures.size < (w.closures.push _).size
    rw [Array.size_push]
    exact Nat.lt_succ_self _
  · cases p with
    | closure r =>
      have hr : r.index ≠ w.closures.size := fun heq =>
        hp (congrArg (fun i => World.Holder.closure ⟨i⟩) heq)
      rw [World.held, World.held]
      show ((w.closures.push c)[r.index]?).elim [] World.closureValues = _
      rw [Array.getElem?_push, if_neg hr]
    | _ => rfl

/-- A variable in a frame of the reserve may have any value. -/
theorem Safe.define (h : s.Safe w) {env : FrameRef} (henv : s.frames env)
    {name : Symbol} {v : Value} (hv : w.InRange v) : s.Safe (w.define env name v) := by
  have hchange : (Rules.mk True True).Change w (w.define env name v) := .define fun _ => hv
  have hsize : (w.define env name v).frames.size = w.frames.size := Array.size_modify
  refine ⟨hchange.sound trivial h.sound, h.apart.cells, h.apart.vectors, h.apart.maps,
    h.apart.closures,
    fun r hr => hsize ▸ h.apart.frames r hr, fun p hp x hx => ?_⟩
  have hsame : (w.define env name v).held p = w.held p := by
    cases p with
    | frame r =>
      have hr : r.index ≠ env.index := fun heq => hp (by
        obtain rfl : r = env := congrArg FrameRef.mk heq
        exact henv)
      rw [World.held, World.frame_define, if_neg fun hr' => hr hr'.1, World.held]
    | _ => rfl
  exact (h.apart.held p hp x (hsame ▸ hx)).mono hchange.grows

/-! ## Calls -/

/-- However a call ends, it leaves the reserve as it is and out of reach. -/
theorem Safe.afterCall [Host] {c : Invocation} (h : s.Safe c.world) {i : Interpreter}
    (hroot : s.Admits c.world (.env i.env)) (hf : s.Admits c.world c.function)
    (hargs : ∀ v ∈ c.arguments, s.Admits c.world v) {r : EStateM.Result Stop World Value}
    (hcall : c.ComesTo i i.env r) :
    s.Kept c.world (Run.leaves r) ∧ ∀ v w', r = .ok v w' → s.Admits w' v := by
  have hsite : (Invariant.untouched s c.world).ValidSite c.world
      ⟨i.env, i.macros, some i.macros, c.room⟩ := ⟨fun _ => hroot, trivial⟩
  obtain ⟨hr, n, hn⟩ := hcall
  have hrun := hn n (Nat.le_refl n)
  have hends := ((evaluators_agree c.world n).call hsite (fun _ => hf)
    (fun v hv _ => hargs v hv) h.good).2
  rw [Run.run_unplaced] at hrun
  change (Invariant.untouched s c.world).Ends c.world _
    ((call n ⟨i.env, i.macros, some i.macros, c.room⟩ c.function c.arguments).run c.world) at hends
  generalize
    (call n ⟨i.env, i.macros, some i.macros, c.room⟩ c.function c.arguments).run c.world = x
    at hrun hends
  subst hrun
  cases x with
  | ok v w' =>
    obtain ⟨hgrows, hgood, hv⟩ := hends
    refine ⟨.of_good hgrows hgood, fun x w'' hx => ?_⟩
    cases hx
    exact hv trivial
  | error t w' => exact ⟨.of_good hends.1 hends.2, nofun⟩

end Reserve

end TemplateLisp
