import TemplateLisp.Proofs.Scopes
import TemplateLisp.Proofs.Seclusion

/-!
# The scope of a function at work

While a function of the root works, the frames of its variables stand inside of the root one in
another, and nothing but the function itself can get at them. `World.Scope` says what the frames
bind. So it says what each name means there (`World.Scope.lookup?`) and which frame an assignment
changes (`World.Scope.assign`). `World.AtWork` says that the frames are out of reach besides; they
stay so while the function calls others (`World.AtWork.afterCall`).
-/

namespace TemplateLisp

theorem mem_entryValues_ofNames {named : List (Symbol × Value)} {v : Value} :
    v ∈ World.entryValues (Bindings.ofNames named) ↔ ∃ e ∈ named, v = .sym e.1 ∨ v = e.2 := by
  simp only [World.mem_entryValues, Bindings.ofNames, List.mem_map]
  constructor
  · rintro ⟨_, ⟨e, he, rfl⟩, hv⟩
    exact ⟨e, he, hv⟩
  · rintro ⟨e, he, hv⟩
    exact ⟨_, ⟨e, he, rfl⟩, hv⟩

namespace World

/-- The frames with their bindings lead from the innermost one to the root. -/
inductive Scope (w : World) (root : FrameRef) : FrameRef → List (FrameRef × Bindings) → Prop where
  | root (exists_root : root.index < w.frames.size) : Scope w root root []
  | inside {env outer : FrameRef} {vars : Bindings} {frames : List (FrameRef × Bindings)}
      (same : w.frame env = ⟨vars, some outer⟩) (older : outer.index < env.index)
      (rest : Scope w root outer frames) : Scope w root env ((env, vars) :: frames)

variable {start w w' : World} {root env r : FrameRef} {vars : Bindings}
  {frames : List (FrameRef × Bindings)} {name : Symbol} {v : Value}

namespace Scope

theorem inRange (h : w.Scope root env frames) : env.index < w.frames.size := by
  cases h with
  | root exists_root => exact exists_root
  | inside same =>
    by_contra hexists
    rw [World.frame, getD_of_le (Nat.not_lt.1 hexists)] at same
    cases same

/-- The scope around the innermost frame. -/
theorem outer {inner : FrameRef × Bindings} (h : w.Scope root env (inner :: (r, vars) :: frames)) :
    w.Scope root r ((r, vars) :: frames) := by
  cases h with
  | inside _ _ rest =>
    cases rest with
    | inside same older rest => exact .inside same older rest

/-! ## What a scope outlasts -/

/-- A scope stays where its frames stay as they are. -/
theorem congr (h : w.Scope root env frames) (hsize : w.frames.size ≤ w'.frames.size)
    (hframe : ∀ e ∈ frames, w'.frame e.1 = w.frame e.1) : w'.Scope root env frames := by
  induction h with
  | root exists_root => exact .root (Nat.lt_of_lt_of_le exists_root hsize)
  | inside same older _ ih =>
    obtain ⟨hhere, hrest⟩ := List.forall_mem_cons.1 hframe
    exact .inside (hhere.trans same) older (ih hrest)

/-- The frames of a scope are there, and none of them is younger than the innermost one. -/
theorem frame_le (h : w.Scope root env frames) : ∀ e ∈ frames, e.1.index ≤ env.index := by
  induction h with
  | root => nofun
  | inside _ older _ ih =>
    exact List.forall_mem_cons.2 ⟨Nat.le_refl _, fun e he =>
      Nat.le_trans (ih e he) (Nat.le_of_lt older)⟩

theorem of_extends (h : w.Scope root env frames) (hw : w.Extends w') : w'.Scope root env frames :=
  h.congr (Nat.le_of_eq (congrArg Array.size hw.frames_eq).symm) fun e _ => by
    rw [World.frame, hw.frames_eq, World.frame]

/-- A scope stays as it is when a frame is added elsewhere. -/
theorem of_addFrame (h : w.Scope root env frames) (f : Frame) :
    (w.addFrame f).2.Scope root env frames := by
  have hsize : (w.addFrame f).2.frames.size = w.frames.size + 1 := Array.size_push _
  refine h.congr (by omega) fun e he => ?_
  rw [frame_addFrame, if_neg (Nat.ne_of_lt (Nat.lt_of_le_of_lt (h.frame_le e he) h.inRange))]

/-- A frame that is added lies inside of the scope. -/
theorem opened (h : w.Scope root env frames) (vars : Bindings) :
    (w.addFrame ⟨vars, some env⟩).2.Scope root ⟨w.frames.size⟩
    ((⟨w.frames.size⟩, vars) :: frames) :=
  .inside ((frame_addFrame ..).trans (if_pos rfl)) h.inRange (h.of_addFrame _)

/-- The innermost frame binds what is defined in it. -/
theorem define (h : w.Scope root env ((env, vars) :: frames)) (name : Symbol) (v : Value) :
    (w.define env name v).Scope root env ((env, Bindings.put name v vars) :: frames) := by
  have hexists := h.inRange
  have hsize : (w.define env name v).frames.size = w.frames.size := Array.size_modify
  cases h with
  | inside same older rest =>
    refine .inside ?_ older (rest.congr (Nat.le_of_eq hsize.symm) fun e he => ?_)
    · rw [frame_define, if_pos ⟨rfl, hexists⟩, same]
    · have hle := rest.frame_le e he
      rw [frame_define, if_neg fun heq => ?_]
      omega

/-! ## What names mean -/

section
variable (h : w.Scope root env frames) (houtermost : (w.frame root).outer = none)
include h houtermost

theorem chain : w.Chain root env (frames.map (·.1) ++ [root]) ∧ frames.length ≤ env.index ∧
    ∀ e ∈ frames, (w.frame e.1).vars = e.2 := by
  induction h with
  | root => exact ⟨.root houtermost, Nat.zero_le _, nofun⟩
  | inside same older _ ih =>
    obtain ⟨hchain, hlength, hvars⟩ := ih
    refine ⟨.inside (by rw [same]) hchain, ?_, List.forall_mem_cons.2 ⟨by rw [same], hvars⟩⟩
    rw [List.length_cons]
    omega

theorem searches : w.Searches root env (frames.map (·.1) ++ [root]) := by
  obtain ⟨hchain, hlength, -⟩ := h.chain houtermost
  refine hchain.searches ?_
  have hexists := h.inRange
  simp only [List.length_append, List.length_map, List.length_singleton]
  omega

/-- A name means what the innermost frame that binds it says, or else what the root says. -/
theorem lookup? (name : Symbol) : w.lookup? env name =
    (frames.findSome? fun e => Bindings.get? name e.2).or
    (Bindings.get? name (w.frame root).vars) := by
  obtain ⟨-, -, hvars⟩ := h.chain houtermost
  have hsame : (frames.map (·.1)).findSome? (fun r => Bindings.get? name (w.frame r).vars) =
      frames.findSome? fun e => Bindings.get? name e.2 := by
    clear h
    induction frames with
    | nil => rfl
    | cons e frames ih =>
      obtain ⟨he, hvars⟩ := List.forall_mem_cons.1 hvars
      rw [List.map_cons, List.findSome?_cons, List.findSome?_cons, he, ih hvars]
  rw [(h.searches houtermost).lookup, List.findSome?_append, hsame]
  simp

/-- An assignment changes the innermost frame that binds the name. -/
theorem assign (before : List (FrameRef × Bindings)) {after : List (FrameRef × Bindings)}
    (hframes : frames = before ++ (r, vars) :: after)
    (hbefore : (before.findSome? fun e => Bindings.get? name e.2) = none)
    (hbound : (Bindings.get? name vars).isSome) (v : Value) : w.assign env name v =
    w.define r name v := by
  obtain ⟨-, -, hvars⟩ := h.chain houtermost
  refine (h.searches houtermost).assign name v r ?_
  subst hframes
  obtain ⟨hfree, hrest⟩ := List.forall_mem_append.1 hvars
  have hunbound : (before.map (·.1)).find? (w.binds name) = none := by
    refine List.find?_eq_none.2 fun q hq => ?_
    obtain ⟨e, he, rfl⟩ := List.mem_map.1 hq
    rw [binds, hfree e he, List.findSome?_eq_none_iff.1 hbefore e he]
    exact Bool.false_ne_true
  have hbinds : w.binds name r = true := by rw [binds, hrest _ List.mem_cons_self, hbound]
  simp [List.find?_append, hunbound, hbinds]

end

end Scope

/-! ## Steps of a function at work -/

end World

/-- The reserve has frames only, and none that was there in the world. -/
structure Reserve.NewFrames (start : World) (s : Reserve) : Prop extends s.Newer start where
  only : ∀ place, s.Covers place → ∃ r, place = .frame r

theorem Reserve.NewFrames.no_cells {start : World} {s : Reserve} (h : s.NewFrames start)
    (r : CellRef) :
    ¬ s.cells r := fun hr => by
  obtain ⟨q, hq⟩ := h.only (.cell r) hr
  cases hq

theorem Reserve.newFrames_none (start : World) : NewFrames start none where
  toNewer := .none start
  only place h := by cases place <;> cases h

theorem Reserve.NewFrames.adding {start : World} {s : Reserve} (h : s.NewFrames start)
    {r : FrameRef} (hr : start.frames.size ≤ r.index) : (s.adding (.frame r)).NewFrames start where
  toNewer := h.toNewer.adding fun hp => Nat.not_lt.2 hr (World.mem_places.1 hp)
  only place hplace := by
    cases place with
    | frame q => exact ⟨q, rfl⟩
    | cell | vector | map | closure =>
      rcases hplace with hold | hnew
      · exact h.only _ hold
      · cases hnew
    | _ => cases hplace

namespace World

/-- A function works in `env` since the world `start`: its frames, which have been made since, are
in a reserve. -/
structure AtWork (start w : World) (root env : FrameRef)
    (frames : List (FrameRef × Bindings)) : Prop where
  grows : start.Grows w
  scope : w.Scope root env frames
  reserved : ∃ s : Reserve, s.NewFrames start ∧ s.Safe w ∧ ∀ e ∈ frames, s.frames e.1

namespace AtWork

variable {start w w' : World} {root env r : FrameRef} {vars : Bindings}
  {frames : List (FrameRef × Bindings)} {name : Symbol} {v : Value}

theorem sound (h : start.AtWork w root env frames) : w.Sound := by
  obtain ⟨s, -, hsafe, -⟩ := h.reserved
  exact hsafe.sound

/-- The function opens a scope. -/
theorem opened (h : start.AtWork w root env frames) (named : List (Symbol × Value))
    (hnamed : ∀ e ∈ named, w.InRange e.2) :
    start.Aside w (w.addFrame ⟨Bindings.ofNames named, some env⟩).2 ∧
      start.AtWork (w.addFrame ⟨Bindings.ofNames named, some env⟩).2 root ⟨w.frames.size⟩
        ((⟨w.frames.size⟩, Bindings.ofNames named) :: frames) := by
  obtain ⟨s, hnew, hsafe, hframes⟩ := h.reserved
  have hvalues : ∀ v ∈ entryValues (Bindings.ofNames named), w.InRange v := by
    intro v hv
    obtain ⟨e, he, rfl | rfl⟩ := mem_entryValues_ofNames.1 hv
    · trivial
    · exact hnamed e he
  have haside := aside_addFrame (Bindings.ofNames named) env h.sound h.grows
  refine ⟨haside, h.grows.trans haside.toKeeps.toGrows, h.scope.opened _, _,
    hnew.adding h.grows.frames,
    hsafe.addFrame hvalues h.scope.inRange, ?_⟩
  exact List.forall_mem_cons.2 ⟨.inr rfl, fun e he => .inl (hframes e he)⟩

/-- The function defines a variable. -/
theorem defined (h : start.AtWork w root env ((env, vars) :: frames)) (name : Symbol)
    (hv : w.InRange v) :
    start.Aside w (w.define env name v) ∧
      start.AtWork (w.define env name v) root env ((env, Bindings.put name v vars) :: frames) := by
  obtain ⟨s, hnew, hsafe, hframes⟩ := h.reserved
  obtain ⟨henv, hframes⟩ := List.forall_mem_cons.1 hframes
  have haside := aside_define name v fun hreach =>
    hreach.not_reserved hsafe hnew.toNewer hnew.only henv
  exact ⟨haside, h.grows.trans haside.toKeeps.toGrows, h.scope.define name v, s, hnew,
    hsafe.define henv hv,
    List.forall_mem_cons.2 ⟨henv, hframes⟩⟩

/-- The function makes objects that do not lead to its frames. -/
theorem extended (h : start.AtWork w root env frames) (hw : w.Extends w')
    (hsafe : ∀ s : Reserve, s.NewFrames start → s.Safe w → s.Safe w') :
    start.AtWork w' root env frames := by
  obtain ⟨s, hnew, hs, hframes⟩ := h.reserved
  exact ⟨h.grows.trans hw.toGrows, h.scope.of_extends hw, s, hnew, hsafe s hnew hs, hframes⟩

/-- The function expands a macro with forms that were there before. -/
theorem expanded (h : start.AtWork w root env frames) {m : BuiltinMacro} {room : Room}
    {args : List Value} {e : Value} (hargs : ∀ v ∈ args, start.InRange v)
    (hrun : (m.expand room args).run w = .ok e w') (hw : w.Extends w') :
    start.AtWork w' root env frames :=
  h.extended hw fun _ hnew hs =>
    (hs.expansion (fun v hv => hnew.admits h.grows (hargs v hv)) hrun).1

/-- The function leaves a scope. -/
theorem left {inner : FrameRef × Bindings}
    (h : start.AtWork w root env (inner :: (r, vars) :: frames)) :
    start.AtWork w root r ((r, vars) :: frames) := by
  obtain ⟨s, hnew, hsafe, hframes⟩ := h.reserved
  exact ⟨h.grows, h.scope.outer, s, hnew, hsafe, (List.forall_mem_cons.1 hframes).2⟩

/-- The function calls another one: what leaves every reserve of new frames as it is leaves its
frames as they are. -/
theorem afterCall (h : start.AtWork w root env frames)
    (hcall : ∀ s : Reserve, s.NewFrames start → s.Safe w → s.Kept w w') :
    start.AtWork w' root env frames := by
  obtain ⟨s, hnew, hsafe, hframes⟩ := h.reserved
  have hkept := hcall s hnew hsafe
  exact ⟨h.grows.trans hkept.grows, h.scope.congr hkept.grows.frames fun e he =>
    hkept.frame _ (hframes e he),
    s, hnew, hkept.safe, hframes⟩

end AtWork

end World

end TemplateLisp
