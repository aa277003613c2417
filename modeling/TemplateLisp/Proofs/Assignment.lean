import Mathlib.Data.List.Nodup
import Mathlib.Data.List.Perm.Subperm
import TemplateLisp.Proofs.Scopes

/-!
# What an assignment changes

In a forest of frames a name that is looked up from a frame means one variable: the binding in the
nearest frame outwards that has one, or, if none has, a binding that the root may still get. An
assignment from a frame changes this variable and nothing else (`World.assign_changes_one`). A
look-up from any other frame changes exactly if the name means the same variable from there
(`World.SameVariable`), wherever the two frames stand.
-/

namespace TemplateLisp

/-- A name that is bound keeps its place. -/
theorem Bindings.names_put {name : Symbol} {b : Bindings} (h : (get? name b).isSome = true)
    (v : Value) : (put name v b).map Prod.fst = b.map Prod.fst := by
  induction b with
  | nil => cases h
  | cons e b ih =>
    obtain ⟨n, u⟩ := e
    by_cases hn : n = .sym name
    · simp [put, hn]
    · rw [get?, if_neg hn] at h
      simp [put, hn, ih h]

namespace World

/-- Going outwards from any frame stays among the frames that exist and comes to an end. -/
structure IsForest (w : World) : Prop where
  linked : ∀ env outer : FrameRef, (w.frame env).outer = some outer → outer.index < w.frames.size
  ends : ∀ env : FrameRef, Acc (fun outer inner : FrameRef =>
    (w.frame inner).outer = some outer) env

/-- The frame that an assignment from `env` writes to: the nearest one that binds the name, or else
the root. -/
def Assigns (w : World) (env : FrameRef) (name : Symbol) (target : FrameRef) : Prop :=
  ∃ root frames, w.Chain root env frames ∧ (frames.find? (w.binds name)).getD root = target

/-- A name means the same variable from two frames: the nearest frame that binds it is the same, or
no frame around either binds it and both have the same root. -/
def SameVariable (w : World) (name : Symbol) (env other : FrameRef) : Prop :=
  ∃ root frames root' frames', w.Chain root env frames ∧ w.Chain root' other frames' ∧
    frames.find? (w.binds name) = frames'.find? (w.binds name) ∧
    (frames.find? (w.binds name) = none → root = root')

/-! ## Chains in a forest -/

section
variable {w : World} {root root' env : FrameRef} {frames frames' : List FrameRef}

theorem Chain.unique (h : w.Chain root env frames) (h' : w.Chain root' env frames') :
    root = root' ∧ frames = frames' := by
  induction h generalizing frames' with
  | root h =>
    cases h' with
    | root => exact ⟨rfl, rfl⟩
    | inside h' => cases h.symm.trans h'
  | inside h _ ih =>
    cases h' with
    | root h' => cases h'.symm.trans h
    | inside h' rest' =>
      obtain rfl := Option.some.inj (h.symm.trans h')
      obtain ⟨hroot, hframes⟩ := ih rest'
      exact ⟨hroot, congrArg (List.cons _) hframes⟩

/-- A frame of a chain has the rest of the chain around it. -/
theorem Chain.suffix (h : w.Chain root env frames) {r : FrameRef} (hr : r ∈ frames) :
    ∃ frames', w.Chain root r frames' ∧ frames' <:+ frames := by
  induction h with
  | root h =>
    obtain rfl := List.mem_singleton.1 hr
    exact ⟨[r], .root h, List.suffix_rfl⟩
  | @inside env outer frames h rest ih =>
    rcases List.mem_cons.1 hr with rfl | hr
    · exact ⟨r :: frames, .inside h rest, List.suffix_rfl⟩
    · obtain ⟨frames', hchain, hsuffix⟩ := ih hr
      exact ⟨frames', hchain, hsuffix.trans (List.suffix_cons _ _)⟩

theorem Chain.root_mem (h : w.Chain root env frames) : root ∈ frames := by
  induction h with
  | root h => exact List.mem_singleton_self root
  | inside _ _ ih => exact List.mem_cons_of_mem _ ih

theorem Chain.root_outer (h : w.Chain root env frames) : (w.frame root).outer = none := by
  induction h with
  | root h => exact h
  | inside _ _ ih => exact ih

theorem Chain.nodup (h : w.Chain root env frames) : frames.Nodup := by
  induction h with
  | root => exact List.nodup_singleton root
  | @inside env outer frames h rest ih =>
    refine List.nodup_cons.2 ⟨fun hmem => ?_, ih⟩
    -- the chain would go on from the frame as it goes on from its second mention
    obtain ⟨frames', hchain, hsuffix⟩ := rest.suffix hmem
    obtain ⟨-, rfl⟩ := hchain.unique (.inside h rest)
    have hlength := hsuffix.length_le
    rw [List.length_cons] at hlength
    omega

theorem IsForest.chain (hw : w.IsForest) (env : FrameRef) : ∃ root frames,
    w.Chain root env frames := by
  induction hw.ends env with
  | intro env _ ih =>
    cases houter : (w.frame env).outer with
    | none => exact ⟨env, [env], .root houter⟩
    | some outer =>
      obtain ⟨root, frames, hchain⟩ := ih outer houter
      exact ⟨root, env :: frames, .inside houter hchain⟩

theorem Chain.inRange (hw : w.IsForest) (h : w.Chain root env frames)
    (henv : env.index < w.frames.size) : ∀ r ∈ frames, r.index < w.frames.size := by
  induction h with
  | root => simpa using henv
  | inside h _ ih => exact List.forall_mem_cons.2 ⟨henv, ih (hw.linked _ _ h)⟩

/-- In a forest, searches go along the whole chain. -/
theorem Chain.searches_of_forest (hw : w.IsForest) (h : w.Chain root env frames)
    (henv : env.index < w.frames.size) : w.Searches root env frames := by
  refine h.searches ?_
  have hinjective : Function.Injective FrameRef.index := by
    rintro ⟨i⟩ ⟨j⟩ (rfl : i = j)
    rfl
  have hindices : (frames.map FrameRef.index).Nodup := h.nodup.map hinjective
  have hbound : frames.map FrameRef.index ⊆ List.range w.frames.size := by
    intro i hi
    obtain ⟨r, hr, rfl⟩ := List.mem_map.1 hi
    exact List.mem_range.2 (h.inRange hw henv r hr)
  simpa using (hindices.subperm hbound).length_le

/-- A frame that is inside of another exists, and the other was made before. -/
theorem InOrder.lt_of_outer (hw : w.InOrder root) {outer : FrameRef}
    (houter : (w.frame env).outer = some outer) :
    outer.index < env.index ∧ env.index < w.frames.size := by
  by_cases henv : env.index < w.frames.size
  · have hroot : env ≠ root := by
      rintro rfl
      cases hw.outermost.symm.trans houter
    obtain ⟨outer', houter', hlt⟩ := hw.inside env henv hroot
    obtain rfl := Option.some.inj (houter'.symm.trans houter)
    exact ⟨hlt, henv⟩
  · rw [frame, getD_of_le (Nat.le_of_not_lt henv)] at houter
    cases houter

/-- Frames in order form a forest. -/
theorem InOrder.isForest (hw : w.InOrder root) : w.IsForest where
  linked env outer houter := Nat.lt_trans (hw.lt_of_outer houter).1 (hw.lt_of_outer houter).2
  ends env := by
    induction hindex : env.index using Nat.strongRecOn generalizing env with
    | _ index ih =>
      exact .intro env fun outer houter => ih _ (hindex ▸ (hw.lt_of_outer houter).1) outer rfl

end

/-! ## Writing to one frame -/

section
variable (w : World) {target : FrameRef} (name : Symbol) (v : Value)

theorem frame_define_eq (htarget : target.index < w.frames.size) (r : FrameRef) :
    (w.define target name v).frame r =
      if r = target then { w.frame r with vars := Bindings.put name v (w.frame r).vars }
      else w.frame r := by
  have hindex : r.index = target.index ∧ r.index < w.frames.size ↔ r = target := by
    constructor
    · rintro ⟨hr, -⟩
      cases r
      cases target
      exact congrArg FrameRef.mk hr
    · rintro rfl
      exact ⟨rfl, htarget⟩
  rw [frame_define]
  exact if_congr hindex rfl rfl

theorem outer_define (target : FrameRef) (r : FrameRef) :
    ((w.define target name v).frame r).outer = (w.frame r).outer := by
  rw [frame_define]
  split <;> rfl

theorem get?_define (htarget : target.index < w.frames.size) (r : FrameRef) (y : Symbol) :
    Bindings.get? y ((w.define target name v).frame r).vars =
      if r = target ∧ y = name then some v else Bindings.get? y (w.frame r).vars := by
  rw [frame_define_eq w name v htarget]
  by_cases hr : r = target
  · by_cases hy : y = name
    · rw [if_pos hr, if_pos ⟨hr, hy⟩, hy, Bindings.get?_put_self]
    · rw [if_pos hr, if_neg fun h => hy h.2, Bindings.get?_put_of_ne v _ hy]
  · rw [if_neg hr, if_neg fun h => hr h.1]

end

/-! ## Looking up behind an assignment -/

section
variable {w : World} {root root' env other target : FrameRef} {frames frames' : List FrameRef}
  {name : Symbol}

/-- What is found along a list when one element gets a result of its own. -/
theorem findSome?_override {α β : Type} [DecidableEq α] (f : α → Option β) (a : α) (b : β)
    (l : List α) :
    l.findSome? (fun x => if x = a then some b else f x) =
      if l.find? (fun x => x = a || (f x).isSome) = some a then some b else l.findSome? f := by
  induction l with
  | nil => rfl
  | cons x l ih =>
    by_cases hx : x = a
    · simp [hx]
    · cases hf : f x with
      | some y => simp [hx, hf]
      | none => simpa [hx, hf] using ih

/-- Going outwards, the root comes first among itself and the frames that bind a name exactly if
none binds it. -/
theorem Chain.find?_root (h : w.Chain root' other frames') (hroot : (w.frame root).outer = none)
    (hunbound : w.binds name root = false) :
    frames'.find? (fun r => r = root || w.binds name r) = some root ↔
      frames'.find? (w.binds name) = none ∧ root' = root := by
  induction h with
  | root h =>
    by_cases heq : root' = root
    · simp [heq, hunbound]
    · cases hbinds : w.binds name root' <;> simp [heq, hbinds]
  | @inside env outer frames h rest ih =>
    have hne : env ≠ root := fun heq => by
      rw [heq, hroot] at h
      cases h
    cases hbinds : w.binds name env
    · simpa [hne, hbinds] using ih
    · simp [hne, hbinds]

theorem Assigns.inRange (hw : w.IsForest) (h : w.Assigns env name target)
    (henv : env.index < w.frames.size) : target.index < w.frames.size := by
  obtain ⟨root, frames, hchain, rfl⟩ := h
  cases hfind : frames.find? (w.binds name) with
  | none => exact hchain.inRange hw henv root hchain.root_mem
  | some r => exact hchain.inRange hw henv r (List.mem_of_find?_eq_some hfind)

theorem Assigns.assign_eq (hw : w.IsForest) (h : w.Assigns env name target)
    (henv : env.index < w.frames.size) (v : Value) :
    w.assign env name v = w.define target name v := by
  obtain ⟨root, frames, hchain, rfl⟩ := h
  have hsearches := hchain.searches_of_forest hw henv
  rw [assign, hsearches.find, hsearches.outermost]

/-- The frame that is written to is the first of its kind on the chains from which the name means
the same variable. -/
theorem Assigns.find?_iff (h : w.Assigns env name target) (h' : w.Chain root' other frames') :
    frames'.find? (fun r => r = target || w.binds name r) = some target ↔
      w.SameVariable name env other := by
  obtain ⟨root, frames, hchain, rfl⟩ := h
  have hsame : w.SameVariable name env other ↔
      frames.find? (w.binds name) = frames'.find? (w.binds name) ∧
        (frames.find? (w.binds name) = none → root = root') := by
    constructor
    · rintro ⟨_, _, _, _, hleft, hright, hboth⟩
      obtain ⟨rfl, rfl⟩ := hleft.unique hchain
      obtain ⟨rfl, rfl⟩ := hright.unique h'
      exact hboth
    · exact fun hboth => ⟨_, _, _, _, hchain, h', hboth⟩
  rw [hsame]
  cases hfind : frames.find? (w.binds name) with
  | some r =>
    have hbinds : w.binds name r = true := List.find?_some hfind
    have htest : (fun s => (decide (s = r) || w.binds name s)) = w.binds name := by
      funext s
      by_cases hs : s = r
      · simp [hs, hbinds]
      · simp [hs]
    rw [Option.getD_some, htest]
    simp [eq_comm]
  | none =>
    have hunbound : w.binds name root = false := by
      simpa using List.find?_eq_none.1 hfind root hchain.root_mem
    rw [Option.getD_none, h'.find?_root hchain.root_outer hunbound]
    simp [eq_comm]

/-- Links stay, so chains do. -/
theorem Chain.define (h : w.Chain root env frames) (target : FrameRef) (name : Symbol) (v : Value) :
    (w.define target name v).Chain root env frames := by
  induction h with
  | root h => exact .root ((outer_define w name v target _).trans h)
  | inside h _ ih => exact .inside ((outer_define w name v target _).trans h) ih

theorem IsForest.define (hw : w.IsForest) (target : FrameRef) (name : Symbol) (v : Value) :
    (w.define target name v).IsForest := by
  have hlinks :
    (fun outer inner : FrameRef => ((w.define target name v).frame inner).outer = some outer) =
      fun outer inner => (w.frame inner).outer = some outer := by
    funext outer inner
    rw [outer_define]
  refine ⟨fun env outer houter => ?_, fun env => by rw [hlinks]; exact hw.ends env⟩
  rw [outer_define] at houter
  simpa [World.define, updateVars] using hw.linked env outer houter

/-- A look-up behind an assignment gives the new value exactly if the name means the variable that
has been assigned to, and what it gave before otherwise. -/
theorem Assigns.lookup?_define (hw : w.IsForest) (h : w.Assigns env name target)
    (henv : env.index < w.frames.size) (hother : other.index < w.frames.size)
    (v : Value) (y : Symbol) [Decidable (y = name ∧ w.SameVariable name env other)] :
    (w.define target name v).lookup? other y =
      if y = name ∧ w.SameVariable name env other then some v else w.lookup? other y := by
  obtain ⟨root', frames', hchain⟩ := hw.chain other
  have hbefore := (hchain.searches_of_forest hw hother).lookup y
  have hafter := ((hchain.define target name v).searches_of_forest (hw.define target name v)
    (by simpa [World.define, updateVars] using hother)).lookup y
  rw [hbefore, hafter]
  simp only [get?_define w name v (h.inRange hw henv)]
  by_cases hy : y = name
  · subst hy
    simp only [and_true]
    rw [findSome?_override]
    refine if_congr ((h.find?_iff hchain).trans ?_) rfl rfl
    exact ⟨fun hsame => ⟨rfl, hsame⟩, And.right⟩
  · simp only [hy, and_false, false_and, if_false]

end

/-! ## The law of assignment -/

/-- Assigning a value to a name from a frame of a forest changes one variable. From that frame the
name then has the value. From every frame the name has it exactly if it means the same variable
there, and all other look-ups give what they gave. One frame has been written to, the nearest that
binds the name or else the root; its other bindings, all other frames, all links and everything else
in the world stay as they were, and no binding is added to any frame if the name was bound. -/
theorem assign_changes_one {w : World} (hw : w.IsForest) {env : FrameRef}
    (henv : env.index < w.frames.size) (name : Symbol) (v : Value) :
    (w.assign env name v).lookup? env name = some v ∧
    (∀ (other : FrameRef) (y : Symbol), other.index < w.frames.size →
      (y = name ∧ w.SameVariable name env other →
        (w.assign env name v).lookup? other y = some v) ∧
      (¬ (y = name ∧ w.SameVariable name env other) →
        (w.assign env name v).lookup? other y = w.lookup? other y)) ∧
    (∃ target, w.Assigns env name target ∧
      (∀ r, r ≠ target → (w.assign env name v).frame r = w.frame r) ∧
      ∀ y, y ≠ name → Bindings.get? y ((w.assign env name v).frame target).vars =
        Bindings.get? y (w.frame target).vars) ∧
    (∀ r, ((w.assign env name v).frame r).outer = (w.frame r).outer) ∧
    { w.assign env name v with frames := w.frames } = w ∧
    ((w.lookup? env name).isSome = true → ∀ r,
      ((w.assign env name v).frame r).vars.map Prod.fst = (w.frame r).vars.map Prod.fst) := by
  classical
  obtain ⟨root, frames, hchain⟩ := hw.chain env
  obtain ⟨target, htarget⟩ : ∃ target, w.Assigns env name target := ⟨_, root, frames, hchain, rfl⟩
  have hsize := htarget.inRange hw henv
  have hlookup (other : FrameRef) (y : Symbol) (hother : other.index < w.frames.size) :=
    htarget.lookup?_define hw henv hother v y
  rw [htarget.assign_eq hw henv]
  refine ⟨?_, fun other y hother => ⟨fun h => ?_, fun h => ?_⟩, ⟨target, htarget, fun r hr => ?_,
    fun y hy => ?_⟩, outer_define w name v target, rfl, fun hbound r => ?_⟩
  · rw [hlookup env name henv,
      if_pos ⟨rfl, root, frames, root, frames, hchain, hchain, rfl, fun _ => rfl⟩]
  · rw [hlookup other y hother, if_pos h]
  · rw [hlookup other y hother, if_neg h]
  · rw [frame_define_eq w name v hsize, if_neg hr]
  · rw [get?_define w name v hsize, if_neg fun h => hy h.2]
  · rw [frame_define_eq w name v hsize]
    by_cases hr : r = target
    · rw [if_pos hr]
      refine Bindings.names_put ?_ v
      -- the name is bound from `env`, so the frame written to is the one that binds it
      obtain ⟨root', frames', hchain', hfind⟩ := htarget
      obtain ⟨rfl, rfl⟩ := hchain.unique hchain'
      rw [(hchain.searches_of_forest hw henv).lookup, List.findSome?_isSome_iff] at hbound
      obtain ⟨s, hs, hbinds⟩ := hbound
      obtain ⟨t, ht⟩ : ∃ t, frames.find? (w.binds name) = some t :=
        Option.isSome_iff_exists.1 (List.find?_isSome.2 ⟨s, hs, hbinds⟩)
      rw [ht, Option.getD_some] at hfind
      have hbinds : w.binds name t = true := List.find?_some ht
      rw [hr, ← hfind]
      exact hbinds
    · rw [if_neg hr]

/-- Four frames: the root binds `x`, and so does the frame around the third; the fourth stands
beside it. -/
def shadowing : World :=
  { World.empty with frames := #[⟨Bindings.ofNames [(⟨"x"⟩, .int 1)], none⟩,
      ⟨Bindings.ofNames [(⟨"x"⟩, .int 2)], some ⟨0⟩⟩,
      ⟨[], some ⟨1⟩⟩, ⟨[], some ⟨0⟩⟩] }

theorem shadowing_inOrder : shadowing.InOrder ⟨0⟩ where
  exists_root := by decide
  outermost := rfl
  inside := by
    rintro ⟨i⟩ (hi : i < 4) hne
    match i, hi with
    | 0, _ => exact absurd rfl hne
    | 1, _ => exact ⟨⟨0⟩, rfl, by decide⟩
    | 2, _ => exact ⟨⟨1⟩, rfl, by decide⟩
    | 3, _ => exact ⟨⟨0⟩, rfl, by decide⟩

/-- Assigning to `x` from the innermost frame changes what `x` is in the frame around it and not
what it is beside that. -/
theorem assign_changes_one_shadowing :
    shadowing.IsForest ∧ 2 < shadowing.frames.size ∧
    (shadowing.assign ⟨2⟩ ⟨"x"⟩ (.int 5)).lookup? ⟨2⟩ ⟨"x"⟩ = some (.int 5) ∧
    (shadowing.assign ⟨2⟩ ⟨"x"⟩ (.int 5)).lookup? ⟨1⟩ ⟨"x"⟩ = some (.int 5) ∧
    (shadowing.assign ⟨2⟩ ⟨"x"⟩ (.int 5)).lookup? ⟨3⟩ ⟨"x"⟩ = some (.int 1) := by
  have hroot : shadowing.Chain ⟨0⟩ ⟨0⟩ [⟨0⟩] := .root rfl
  have hshadow : shadowing.Chain ⟨0⟩ ⟨1⟩ [⟨1⟩, ⟨0⟩] := .inside rfl hroot
  have hinner : shadowing.Chain ⟨0⟩ ⟨2⟩ [⟨2⟩, ⟨1⟩, ⟨0⟩] := .inside rfl hshadow
  have hbeside : shadowing.Chain ⟨0⟩ ⟨3⟩ [⟨3⟩, ⟨0⟩] := .inside rfl hroot
  have hframe : FrameRef.index ⟨2⟩ < shadowing.frames.size := by decide
  obtain ⟨hself, hothers, -⟩ :=
    assign_changes_one shadowing_inOrder.isForest hframe ⟨"x"⟩ (.int 5)
  refine ⟨shadowing_inOrder.isForest, by decide, hself, ?_, ?_⟩
  · refine (hothers ⟨1⟩ ⟨"x"⟩ (by decide)).1 ⟨rfl, ?_⟩
    exact ⟨_, _, _, _, hinner, hshadow, by decide, fun _ => rfl⟩
  · refine ((hothers ⟨3⟩ ⟨"x"⟩ (by decide)).2 ?_).trans (by decide)
    rintro ⟨-, _, _, _, _, hleft, hright, hfind, -⟩
    obtain ⟨rfl, rfl⟩ := hleft.unique hinner
    obtain ⟨rfl, rfl⟩ := hright.unique hbeside
    revert hfind
    decide

end World

end TemplateLisp
