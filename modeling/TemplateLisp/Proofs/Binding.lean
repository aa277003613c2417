import TemplateLisp.Proofs.Parameters
import TemplateLisp.Proofs.TailContexts

/-!
# Binding arguments

A parameter list is laid out as required parameters, then optional ones behind `&optional`, then one
for the rest, behind `&rest` or behind a dot (`Layout`). It is read as just these parameters, and
binding arguments gives each of them its own: `ParameterList.binds_layout`.
-/

namespace TemplateLisp

/-! ## Bindings of different names -/

namespace Bindings

variable {named : List (Symbol × Value)} {name : Symbol} {value : Value}

theorem names_ofNames (named : List (Symbol × Value)) :
    (ofNames named).map (·.1) = (named.map (·.1)).map .sym := by
  rw [ofNames, List.map_map, List.map_map]
  rfl

/-- A name that is new comes last. -/
theorem put_of_notMem (value : Value) (h : name ∉ named.map (·.1)) :
    put name value (ofNames named) = ofNames (named ++ [(name, value)]) := by
  induction named with
  | nil => rfl
  | cons e rest ih =>
    obtain ⟨n, v⟩ := e
    simp only [List.map_cons, List.mem_cons, not_or] at h
    have hne : Value.sym n ≠ .sym name := fun heq => h.1 (Value.sym.inj heq).symm
    exact (if_neg hne).trans (congrArg _ (ih h.2))

/-- Bindings of new names, each a different one, are put behind those that there are. -/
theorem foldl_put (new : List (Symbol × Value)) (h : (named ++ new).map (·.1) |>.Nodup) :
    new.foldl (fun b (n, v) => put n v b) (ofNames named) = ofNames (named ++ new) := by
  induction new generalizing named with
  | nil => rw [List.append_nil, List.foldl_nil]
  | cons e rest ih =>
    obtain ⟨n, v⟩ := e
    have hnew : n ∉ named.map (·.1) := fun hmem => by
      rw [List.map_append, List.nodup_append] at h
      exact h.2.2 _ hmem n (List.mem_cons_self ..) rfl
    rw [List.foldl_cons]
    dsimp only
    rw [put_of_notMem v hnew, ih, List.append_assoc, List.singleton_append]
    rwa [List.append_assoc, List.singleton_append]

/-- Where no name is bound twice, each has the value that it is bound to. -/
theorem get?_of_mem (h : (named.map (·.1)).Nodup) (hmem : (name, value) ∈ named) :
    get? name (ofNames named) = some value := by
  induction named with
  | nil => cases hmem
  | cons e rest ih =>
    obtain ⟨n, v⟩ := e
    rw [List.map_cons, List.nodup_cons] at h
    rcases List.mem_cons.1 hmem with heq | hrest
    · cases heq
      exact if_pos rfl
    · have hne : Value.sym n ≠ .sym name := fun heq =>
        h.1 (Value.sym.inj heq ▸ List.mem_map_of_mem (f := (·.1)) hrest)
      exact (if_neg hne).trans (ih h.2 hrest)

end Bindings

namespace World

theorem frames_addList (w : World) (items : List Value) (tail : Value) :
    (w.addList items tail).2 = { w with cells := (w.addList items tail).2.cells } := by
  induction items with
  | nil => rfl
  | cons item items ih =>
    rw [addList_cons]
    generalize w.addList items tail = made at ih
    obtain ⟨v, w₁⟩ := made
    dsimp only at ih ⊢
    rw [ih]
    rfl

end World

/-! ## Layouts -/

namespace ParameterList

/-- How the parameter for the rest is written. -/
inductive RestPart where
  | absent
  | marked (s : Symbol)
  | dotted (s : Symbol)

namespace RestPart

/-- The parameter for the rest. -/
def parameter? : RestPart → Option Symbol
  | absent => none
  | marked s => some s
  | dotted s => some s

/-- The parameters behind `&rest`. -/
def behindMarker : RestPart → List Symbol
  | marked s => [s]
  | _ => []

/-- The elements from `&rest` on. -/
def items : RestPart → List Value
  | marked s => [.sym ⟨"&rest"⟩, .sym s]
  | _ => []

/-- What the list ends in. -/
def tail : RestPart → Value
  | dotted s => .sym s
  | _ => .nil

end RestPart

/-- The usual layout of a parameter list: required parameters, optional ones behind `&optional`, and
one for the rest. -/
structure Layout where
  required : List Symbol
  /-- The parameters behind `&optional`, if that is written. -/
  optional? : Option (List Symbol)
  rest : RestPart

namespace Layout

variable (l : Layout)

/-- The optional parameters. -/
def optional : List Symbol := l.optional?.getD []

/-- The elements from `&optional` on. -/
def optionalItems : List Value :=
  match l.optional? with
  | none => l.rest.items
  | some os => .sym ⟨"&optional"⟩ :: (os.map .sym ++ l.rest.items)

/-- The elements of the written list. -/
def items : List Value := l.required.map .sym ++ l.optionalItems

/-- The parameters that are written. -/
def parameters : ParameterList := ⟨l.required, l.optional, l.rest.parameter?⟩

/-- All parameters are different, and none is a marker. -/
structure Plain : Prop where
  nodup : l.parameters.names.Nodup
  unmarked : ∀ s ∈ l.parameters.names, Group.ofMarker? s = none

end Layout

section
variable {wanted : Group} {ss : List Symbol} {vs : List Value}

/-- Parameters stay in the group in which they stand. -/
theorem inGroup_map_append (current : Group) (h : ∀ s ∈ ss, Group.ofMarker? s = none) :
    inGroup wanted current (ss.map .sym ++ vs) =
      (if current = wanted then ss else []) ++ inGroup wanted current vs := by
  induction ss with
  | nil => simp
  | cons s ss ih =>
    rw [List.map_cons, List.cons_append, inGroup, h s (List.mem_cons_self ..)]
    dsimp only
    rw [ih fun t ht => h t (List.mem_cons_of_mem _ ht)]
    split <;> rfl

theorem lastGroup_map_append (current : Group) (h : ∀ s ∈ ss, Group.ofMarker? s = none) :
    lastGroup current (ss.map .sym ++ vs) = lastGroup current vs := by
  induction ss with
  | nil => rfl
  | cons s ss ih =>
    rw [List.map_cons, List.cons_append, lastGroup, h s (List.mem_cons_self ..)]
    exact ih fun t ht => h t (List.mem_cons_of_mem _ ht)

end

namespace Layout

variable {l : Layout}

theorem Plain.required (h : l.Plain) : ∀ s ∈ l.required, Group.ofMarker? s = none := fun s hs =>
  h.unmarked s (by simp [parameters, names, hs])

theorem Plain.optional (h : l.Plain) : ∀ s ∈ l.optional, Group.ofMarker? s = none := fun s hs =>
  h.unmarked s (by simp [parameters, names, hs])

theorem Plain.rest (h : l.Plain) {s : Symbol} (hs : l.rest.parameter? = some s) :
    Group.ofMarker? s = none :=
  h.unmarked s (by simp [parameters, names, hs])

theorem Plain.inGroup_rest (h : l.Plain) (wanted current : Group) :
    inGroup wanted current l.rest.items = if .rest = wanted then l.rest.behindMarker else [] := by
  have hrest := @h.rest
  cases hpart : l.rest with
  | absent | dotted => simp [RestPart.items, RestPart.behindMarker, inGroup]
  | marked s =>
    rw [hpart] at hrest
    simp only [RestPart.items, inGroup, hrest rfl]
    simp [Group.ofMarker?, RestPart.behindMarker]

theorem Plain.inGroup_optionalItems (h : l.Plain) (wanted current : Group) :
    inGroup wanted current l.optionalItems = (if .optional = wanted then l.optional else []) ++
      if .rest = wanted then l.rest.behindMarker else [] := by
  have hoptional := h.optional
  unfold optionalItems Layout.optional at *
  cases hpart : l.optional? with
  | none => simp [h.inGroup_rest]
  | some os =>
    rw [hpart] at hoptional
    rw [← h.inGroup_rest wanted .optional]
    exact inGroup_map_append .optional hoptional

/-- What stands in each group of the written list. -/
theorem Plain.inGroup_items (h : l.Plain) (wanted : Group) :
    inGroup wanted .required l.items = match wanted with
      | .required => l.required
      | .optional => l.optional
      | .rest => l.rest.behindMarker := by
  rw [items, inGroup_map_append .required h.required, h.inGroup_optionalItems]
  cases wanted <;> simp

/-- The list ends behind `&rest` only with the parameter that stands there. -/
theorem Plain.lastGroup_items (h : l.Plain) (hlast : lastGroup .required l.items = .rest) :
    l.rest.behindMarker ≠ [] := by
  have hoptional := h.optional
  rw [items, lastGroup_map_append .required h.required] at hlast
  have hend : lastGroup (if l.optional?.isSome then .optional
    else .required) l.rest.items = .rest := by
    unfold optionalItems at hlast
    unfold Layout.optional at hoptional
    cases hpart : l.optional? with
    | none => simpa [hpart] using hlast
    | some os =>
      rw [hpart] at hlast hoptional
      rw [← hlast]
      exact (lastGroup_map_append .optional hoptional).symm
  cases hrest : l.rest with
  | marked s => exact List.cons_ne_nil _ _
  | _ =>
    rw [hrest] at hend
    cases hpart : l.optional? <;> simp [hpart, RestPart.items, lastGroup] at hend

theorem symbols (l : Layout) : ∀ v ∈ l.items, (symbol? v).isSome := by
  unfold items optionalItems RestPart.items
  intro v hv
  cases l.optional? <;> cases l.rest <;> grind [symbol?]

/-- The written list is read as just its parameters. -/
theorem Plain.parse (h : l.Plain) :
    ParameterList.parse l.items l.rest.tail = .ok l.parameters := by
  have hlast := h.lastGroup_items
  rw [parse_eq_ok_iff, behindRest]
  simp only [h.inGroup_items]
  refine ⟨l.symbols, ?_, ?_, fun hgroup => ?_, ?_⟩
  · cases l.rest <;> simp [RestPart.tail]
  · cases l.rest <;> simp [RestPart.behindMarker]
  · have hbehind := hlast hgroup
    cases hrest : l.rest <;> rw [hrest] at hbehind <;> simp [RestPart.behindMarker] at hbehind ⊢
  · unfold parameters
    cases l.rest <;> rfl

end Layout

/-! ## Binding -/

variable {w w' : World} {env outer : FrameRef} {args : List Value} {l : Layout}

/-- In the world `w'` the frame `env` has the arguments bound, as it has been made in the
world `w`. -/
structure Layout.Bound (l : Layout) (args : List Value) (outer : FrameRef) (w : World)
    (env : FrameRef) (w' : World) : Prop where
  isNew : env.index = w.frames.size ∧ w'.frames.size = w.frames.size + 1
  outer : (w'.frame env).outer = some outer
  /-- The names are those that are written. -/
  names : (w'.frame env).vars.map (·.1) = l.parameters.names.map .sym
  required (i : Nat) (s : Symbol) : l.required[i]? = some s →
    ∃ a, args[i]? = some a ∧ Bindings.get? s (w'.frame env).vars = some a
  optional (i : Nat) (s : Symbol) : l.optional[i]? = some s →
    Bindings.get? s (w'.frame env).vars = some (args[l.required.length + i]?.getD .nil)
  rest (s : Symbol) : l.rest.parameter? = some s → ∃ v,
    Bindings.get? s (w'.frame env).vars = some v ∧
    World.NewList w w' v (args.drop (l.required.length + l.optional.length))
  /-- No argument is left out where there is no parameter for the rest. -/
  noRest : l.rest.parameter? = none → args.drop (l.required.length + l.optional.length) = []
  /-- The values that have been given, and the elements of the rest behind them, are the
  arguments. -/
  together : (l.required ++ l.optional.take (args.length - l.required.length)).map
      (Bindings.get? · (w'.frame env).vars) ++
    (args.drop (l.required.length + l.optional.length)).map some = args.map some
  otherFrames (r : FrameRef) : r ≠ env → w'.frame r = w.frame r
  /-- Of all other objects there are only more pairs. -/
  otherObjects : (∀ r : CellRef, r.index < w.cells.size → w'.cell r = w.cell r) ∧
    w' = { w with cells := w'.cells, frames := w'.frames }

/-- The values of the parameters that are not for the rest. -/
def paddedArguments (l : Layout) (args : List Value) : List Value :=
  args ++ List.replicate (l.required.length + l.optional.length - args.length) .nil

/-- The names that are bound, with their values; `rest` is the list of the further arguments. -/
def boundNames (l : Layout) (args : List Value) (rest : Value) : List (Symbol × Value) :=
  (l.required ++ l.optional).zip (paddedArguments l args) ++ l.rest.parameter?.toList.map (·, rest)

/-- The bindings that are made. -/
def boundVars (l : Layout) (args : List Value) (rest : Value) : Bindings :=
  .ofNames (boundNames l args rest)

section
variable {rest : Value} {i : Nat} {s : Symbol} {v : Value}

theorem names_zip_paddedArguments (l : Layout) (args : List Value) :
    ((l.required ++ l.optional).zip (paddedArguments l args)).map (·.1) =
    l.required ++ l.optional := by
  refine List.map_fst_zip ?_
  rw [paddedArguments, List.length_append, List.length_append, List.length_replicate]
  omega

theorem names_boundNames (l : Layout) (args : List Value) (rest : Value) :
    (boundNames l args rest).map (·.1) = l.parameters.names := by
  rw [boundNames, List.map_append, names_zip_paddedArguments, List.map_map, ParameterList.names]
  exact congrArg (_ ++ ·) (List.map_id _)

theorem names_boundVars (l : Layout) (args : List Value) (rest : Value) :
    (boundVars l args rest).map (·.1) = l.parameters.names.map .sym := by
  rw [boundVars, Bindings.names_ofNames, names_boundNames]

theorem getElem?_paddedArguments (args : List Value)
    (hi : i < l.required.length + l.optional.length) : (paddedArguments l args)[i]? =
    some (args[i]?.getD .nil) := by
  rw [paddedArguments]
  by_cases hgiven : i < args.length
  · rw [List.getElem?_append_left hgiven, List.getElem?_eq_getElem hgiven, Option.getD_some]
  · rw [List.getElem?_append_right (Nat.le_of_not_lt hgiven), List.getElem?_replicate,
      if_pos (by omega),
      List.getElem?_eq_none (Nat.le_of_not_lt hgiven), Option.getD_none]

/-- A parameter that is not for the rest has the argument in its place, or else `nil`. -/
theorem Layout.Plain.get?_boundVars (h : l.Plain) (args : List Value) (rest : Value)
    (hs : (l.required ++ l.optional)[i]? = some s) :
    Bindings.get? s (boundVars l args rest) = some (args[i]?.getD .nil) := by
  have hi : i < l.required.length + l.optional.length := by
    rw [← List.length_append]
    exact (List.getElem?_eq_some_iff.1 hs).1
  refine Bindings.get?_of_mem (names_boundNames l args rest ▸ h.nodup) (List.mem_append_left _ ?_)
  exact List.mem_of_getElem? (List.getElem?_zip_eq_some.2 ⟨hs, getElem?_paddedArguments args hi⟩)

theorem Layout.Plain.get?_boundVars_rest (h : l.Plain) (args : List Value) (rest : Value)
    (hs : l.rest.parameter? = some s) : Bindings.get? s (boundVars l args rest) = some rest := by
  refine Bindings.get?_of_mem (names_boundNames l args rest ▸ h.nodup) (List.mem_append_right _ ?_)
  rw [hs]
  exact List.mem_singleton_self _

/-- The parameters that have been given one have the first arguments. -/
theorem Layout.Plain.map_get?_boundVars (h : l.Plain) (args : List Value) (rest : Value) :
    ((l.required ++ l.optional).take args.length).map (Bindings.get? · (boundVars l args rest)) =
      (args.take (l.required.length + l.optional.length)).map some := by
  refine List.ext_getElem? fun i => ?_
  rw [List.getElem?_map, List.getElem?_map, List.getElem?_take, List.getElem?_take]
  by_cases hi : i < args.length
  · rw [if_pos hi]
    cases hs : (l.required ++ l.optional)[i]? with
    | none =>
      rw [List.getElem?_eq_none_iff, List.length_append] at hs
      rw [if_neg (Nat.not_lt.2 hs)]
      rfl
    | some s =>
      have hlt := (List.getElem?_eq_some_iff.1 hs).1
      rw [List.length_append] at hlt
      rw [if_pos hlt, Option.map_some, h.get?_boundVars args rest hs, List.getElem?_eq_getElem hi]
      rfl
  · rw [if_neg hi, List.getElem?_eq_none (Nat.le_of_not_lt hi)]
    split <;> rfl

end

/-- What binding makes: the list of the further arguments, then the frame. -/
theorem run_bind_of_accepts (h : l.Plain) (haccepts : l.parameters.Accepts args.length)
    (outer : FrameRef) (name : Option String) (w : World) :
    (l.parameters.bind args outer name).run w =
      let made := w.addList (args.drop (l.required.length + l.optional.length)) .nil
      .ok ⟨w.frames.size⟩ (made.2.addFrame ⟨boundVars l args made.1, some outer⟩).2 := by
  have hnodup := h.nodup
  rw [ParameterList.names] at hnodup
  have hnamed : (l.parameters.namedValues args).foldl (fun b (n, v) => Bindings.put n v b) [] =
      Bindings.ofNames ((l.required ++ l.optional).zip (paddedArguments l args)) := by
    have hpadded : l.parameters.namedValues args =
        (l.required ++ l.optional).zip (paddedArguments l args) := by
      rw [namedValues, paddedArguments, ← List.length_append]
      rfl
    rw [hpadded, show ([] : Bindings) = Bindings.ofNames [] from rfl, Bindings.foldl_put,
      List.nil_append]
    rw [List.nil_append, names_zip_paddedArguments]
    exact (List.nodup_append.1 hnodup).1
  simp only [ParameterList.bind, haccepts.arityFault?, hnamed]
  unfold boundVars boundNames
  cases hrest : l.rest.parameter? with
  | none =>
    have hextra : args.drop (l.required.length + l.optional.length) = [] :=
      List.drop_eq_nil_of_le (haccepts.2 hrest)
    rw [show l.parameters.rest = none from hrest, hextra]
    simp only [Option.toList_none, List.map_nil, List.append_nil]
    rfl
  | some s =>
    have hnew : s ∉ ((l.required ++ l.optional).zip (paddedArguments l args)).map (·.1) := by
      rw [names_zip_paddedArguments]
      refine fun hmem => (List.nodup_append.1 hnodup).2.2 s hmem s ?_ rfl
      rw [show l.parameters.rest = some s from hrest]
      exact List.mem_singleton_self s
    have hframes (items : List Value) : (w.addList items .nil).2.frames.size = w.frames.size := by
      rw [World.frames_addList]
    rw [show l.parameters.rest = some s from hrest]
    dsimp only
    rw [EStateM.run_bind, Run.run_list]
    dsimp only
    rw [Bindings.put_of_notMem _ hnew,
      ← hframes (args.drop (l.required.length + l.optional.length))]
    rfl

/-- Arguments that may be passed are bound, and nothing else happens. -/
theorem bound_of_accepts (h : l.Plain) (haccepts : l.parameters.Accepts args.length)
    (outer : FrameRef) (name : Option String) (w : World) :
    ∃ env w', (l.parameters.bind args outer name).run w = .ok env w' ∧
      l.Bound args outer w env w' := by
  refine ⟨_, _, run_bind_of_accepts h haccepts outer name w, ?_⟩
  generalize hextra : args.drop (l.required.length + l.optional.length) = extra
  generalize hrest : (w.addList extra .nil).1 = rest
  generalize hw' : ((w.addList extra .nil).2.addFrame ⟨boundVars l args rest, some outer⟩).2 = w'
  have hworld : w' = { w with cells := w'.cells, frames := w'.frames } := by
    rw [← hw', World.addFrame, w.frames_addList extra .nil]
  have hframes : w'.frames = w.frames.push ⟨boundVars l args rest, some outer⟩ := by
    rw [← hw', World.addFrame, w.frames_addList extra .nil]
  have hframe (r : FrameRef) : w'.frame r =
      if r.index = w.frames.size then ⟨boundVars l args rest, some outer⟩ else w.frame r := by
    rw [World.frame, hframes]
    exact World.frame_addFrame (w := w) ⟨boundVars l args rest, some outer⟩ r
  have hnew := (hframe ⟨w.frames.size⟩).trans (if_pos rfl)
  refine ⟨⟨rfl, ?_⟩, ?_, ?_, fun i s hs => ?_, fun i s hs => ?_, fun s hs =>
    ⟨rest, ?_, ?_⟩, fun hs => ?_, ?_,
    fun r hr => ?_, fun r hr => ?_, hworld⟩
  · rw [hframes, Array.size_push]
  · rw [hnew]
  · rw [hnew, names_boundVars]
  · have hi := (List.getElem?_eq_some_iff.1 hs).1
    have hgiven := List.getElem?_eq_getElem (Nat.lt_of_lt_of_le hi haccepts.1)
    refine ⟨_, hgiven, ?_⟩
    rw [hnew, h.get?_boundVars args rest ((List.getElem?_append_left hi).trans hs), hgiven]
    rfl
  · rw [hnew]
    refine h.get?_boundVars args rest ?_
    rw [List.getElem?_append_right (Nat.le_add_right _ _), Nat.add_sub_cancel_left]
    exact hs
  · rw [hnew, h.get?_boundVars_rest args rest hs]
  · rw [hextra, ← hrest, ← hw']
    exact World.newList_addList w extra (Nat.le_refl _) fun _ _ _ => rfl
  · exact List.drop_eq_nil_of_le (haccepts.2 hs)
  · rw [hnew, hextra, ← hextra]
    have htake : l.required ++ l.optional.take (args.length - l.required.length) =
        (l.required ++ l.optional).take args.length := by
      rw [List.take_append, List.take_of_length_le (show l.required.length ≤ _ from haccepts.1)]
    rw [htake, h.map_get?_boundVars, ← List.map_append, List.take_append_drop]
  · rw [hframe, if_neg]
    exact fun heq => hr (congrArg FrameRef.mk heq)
  · rw [← hw']
    exact w.cell_addList extra .nil hr

theorem bind_of_not_accepts (haccepts : ¬ l.parameters.Accepts args.length) (outer : FrameRef)
    (name : Option String) (w : World) :
    ∃ f, (l.parameters.bind args outer name).run w = .error (.ofFault (.arity f)) w := by
  have harity (label : String) : ∃ f, l.parameters.arityFault? label args.length = some f := by
    unfold ParameterList.arityFault?
    dsimp only
    by_cases hfew : args.length < l.parameters.required.length
    · exact ⟨_, if_pos hfew⟩
    · rw [if_neg hfew]
      by_cases hmany : (l.parameters.rest.isNone &&
          decide (l.parameters.required.length + l.parameters.optional.length < args.length)) = true
      · exact ⟨_, if_pos hmany⟩
      · refine absurd ⟨Nat.le_of_not_lt hfew, fun hrest => ?_⟩ haccepts
        simpa [hrest] using hmany
  unfold ParameterList.bind
  dsimp only
  split
  · exact ⟨_, rfl⟩
  · rename_i hnone
    obtain ⟨f, hf⟩ := harity _
    exact absurd (hf.symm.trans hnone) nofun

/-- What the elements and the end of a value are accepted as, the value is. -/
theorem run_ofValue {v tail : Value} {items : List Value} {p : ParameterList}
    (hv : w.elements? v = some (items, tail)) (hparse : ParameterList.parse items tail = .ok p)
    (room : Room) : (ofValue room v).run w = .ok p w := by
  unfold World.elements? at hv
  obtain ⟨⟨cells, tail'⟩, hspine, hitems⟩ := Option.map_eq_some_iff.1 hv
  cases hitems
  rw [ofValue, EStateM.run_bind, Run.spine, Run.run_lookOrStop, hspine]
  dsimp only
  rw [hparse]
  rfl

/-- Binding is exact. Let `v` be a parameter list of the usual layout: required parameters, optional
ones behind `&optional`, one for the rest behind `&rest` or behind the dot, all of them different.
Then it is accepted, and for all arguments, in every outer frame and every world: they are bound
exactly if there are as many as the required parameters, and no more than the named ones unless
there is a parameter for the rest; then the new frame has each parameter bound to its own. Otherwise
the call stops with an error that counts the arguments, and nothing changes. -/
theorem binds_layout {l : Layout} (hl : l.Plain) {v : Value} {w₀ : World}
    (hv : w₀.elements? v = some (l.items, l.rest.tail)) (room : Room) :
    ∃ p, (ofValue room v).run w₀ = .ok p w₀ ∧
      ∀ (args : List Value) (outer : FrameRef) (name : Option String) (w : World),
        ((∃ env w', (p.bind args outer name).run w = .ok env w') ↔
          l.required.length ≤ args.length ∧
            (l.rest.parameter?.isSome ∨ args.length ≤ l.required.length + l.optional.length)) ∧
        (∀ env w', (p.bind args outer name).run w = .ok env w' → l.Bound args outer w env w') ∧
        ((¬ ∃ env w', (p.bind args outer name).run w = .ok env w') →
          ∃ f, (p.bind args outer name).run w = .error (.ofFault (.arity f)) w) := by
  refine ⟨l.parameters, run_ofValue hv hl.parse room, fun args outer name w => ?_⟩
  have haccepts_iff : l.parameters.Accepts args.length ↔ l.required.length ≤ args.length ∧
      (l.rest.parameter?.isSome ∨ args.length ≤ l.required.length + l.optional.length) := by
    refine and_congr_right fun _ => ?_
    rw [← Option.ne_none_iff_isSome, or_iff_not_imp_left, not_not]
    rfl
  rw [← haccepts_iff]
  by_cases haccepts : l.parameters.Accepts args.length
  · obtain ⟨env, w', hrun, hbound⟩ := bound_of_accepts hl haccepts outer name w
    refine ⟨iff_of_true ⟨env, w', hrun⟩ haccepts, fun env' w'' hrun' => ?_, fun hnone => ?_⟩
    · cases hrun.symm.trans hrun'
      exact hbound
    · exact absurd ⟨env, w', hrun⟩ hnone
  · obtain ⟨f, hrun⟩ := bind_of_not_accepts haccepts outer name w
    refine ⟨iff_of_false ?_ haccepts, ?_, fun _ => ⟨f, hrun⟩⟩
    · rintro ⟨env, w', hrun'⟩
      cases hrun.symm.trans hrun'
    · intro env w' hrun'
      cases hrun.symm.trans hrun'

/-- The parameter list `(a &optional b . r)`. -/
def optionalAndRest : World :=
  { World.empty with
    cells := #[⟨.sym ⟨"a"⟩, .cell ⟨1⟩, none⟩, ⟨.sym ⟨"&optional"⟩, .cell ⟨2⟩, none⟩,
      ⟨.sym ⟨"b"⟩, .sym ⟨"r"⟩, none⟩]
    frames := #[⟨[], none⟩] }

/-- Three arguments are bound to the three parameters, and without arguments nothing is. -/
theorem binds_layout_optionalAndRest :
    optionalAndRest.elements? (.cell ⟨0⟩) =
        some ([.sym ⟨"a"⟩, .sym ⟨"&optional"⟩, .sym ⟨"b"⟩], .sym ⟨"r"⟩) ∧
      ∃ p, (ofValue .unbounded (.cell ⟨0⟩)).run optionalAndRest = .ok p optionalAndRest ∧
        (∃ env w' v, (p.bind [.int 1, .int 2, .int 3] ⟨0⟩ none).run optionalAndRest = .ok env w' ∧
          Bindings.get? ⟨"a"⟩ (w'.frame env).vars = some (.int 1) ∧
          Bindings.get? ⟨"b"⟩ (w'.frame env).vars = some (.int 2) ∧
          Bindings.get? ⟨"r"⟩ (w'.frame env).vars = some v ∧ w'.ListOf v [.int 3]) ∧
        ∃ f, (p.bind [] ⟨0⟩ none).run optionalAndRest =
          .error (.ofFault (.arity f)) optionalAndRest := by
  have helements : optionalAndRest.elements? (.cell ⟨0⟩) =
      some ([.sym ⟨"a"⟩, .sym ⟨"&optional"⟩, .sym ⟨"b"⟩], .sym ⟨"r"⟩) := by cbv
  have hplain : (⟨[⟨"a"⟩], some [⟨"b"⟩], .dotted ⟨"r"⟩⟩ : Layout).Plain := ⟨by decide, by decide⟩
  obtain ⟨p, hp, hbinds⟩ := binds_layout hplain helements .unbounded
  refine ⟨helements, p, hp, ?_, ?_⟩
  · obtain ⟨haccepts, hbound, -⟩ := hbinds [.int 1, .int 2, .int 3] ⟨0⟩ none optionalAndRest
    obtain ⟨env, w', hrun⟩ := haccepts.2 ⟨Nat.le_add_left 1 2, .inl rfl⟩
    have h := hbound env w' hrun
    obtain ⟨a, ha, hvalue⟩ := h.required 0 ⟨"a"⟩ rfl
    cases ha
    obtain ⟨v, hrest, hlist, -⟩ := h.rest ⟨"r"⟩ rfl
    exact ⟨env, w', v, hrun, hvalue, h.optional 0 ⟨"b"⟩ rfl, hrest, hlist⟩
  · obtain ⟨haccepts, -, herror⟩ := hbinds [] ⟨0⟩ none optionalAndRest
    exact herror fun h => absurd (haccepts.1 h).1 (Nat.not_succ_le_zero 0)

end ParameterList

end TemplateLisp
