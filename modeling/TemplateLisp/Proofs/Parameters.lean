import Mathlib.Data.List.Perm.Basic
import TemplateLisp.ParameterList
import TemplateLisp.Proofs.Transcript

/-!
# The parameters that a parameter list names

`&optional` and `&rest` may stand anywhere in a parameter list and more than once: each parameter
belongs to the group of the last marker before it (`ParameterList.inGroup`).
`ParameterList.parse_eq_ok_iff` says which lists are accepted and what is made of them.

All that is written should be named, and `ParameterList.ofValue_names` says when it is. The symbol
behind a dot takes the place of a parameter behind `&rest`, of which there is at most one; that one
is lost. And `&rest` should give a parameter for the rest, which it does not where `&optional`
stands directly behind it.
-/

namespace TemplateLisp.ParameterList

/-! ## What is written -/

/-- The group that a marker begins. -/
def Group.ofMarker? (s : Symbol) : Option Group :=
  if s.name = "&optional" then some .optional
  else if s.name = "&rest" then some .rest
  else none

/-- The parameters of one group; `current` is the group in front of the elements. -/
def inGroup (wanted : Group) : (current : Group) → List Value → List Symbol
  | _, [] => []
  | current, .sym s :: vs =>
    match Group.ofMarker? s with
    | some g => inGroup wanted g vs
    | none => (if current = wanted then [s] else []) ++ inGroup wanted current vs
  | current, _ :: vs => inGroup wanted current vs

/-- The group that the elements end in; `current` is the one in front of them. -/
def lastGroup : (current : Group) → List Value → Group
  | current, [] => current
  | current, .sym s :: vs => lastGroup ((Group.ofMarker? s).getD current) vs
  | current, _ :: vs => lastGroup current vs

/-- The parameters behind `&rest`. -/
def behindRest (items : List Value) : List Symbol := inGroup .rest .required items

/-- The symbol that a value is. -/
def symbol? : Value → Option Symbol
  | .sym s => some s
  | _ => none

@[simp] theorem symbol?_nil : symbol? .nil = none := rfl

@[simp] theorem symbol?_sym (s : Symbol) : symbol? (.sym s) = some s := rfl

/-- The symbols among the elements that are no markers. -/
def parameters (items : List Value) : List Symbol :=
  (items.filterMap symbol?).filter fun s => (Group.ofMarker? s).isNone

/-- All symbols that are written in a parameter list, markers among the elements aside. -/
def written (items : List Value) (tail : Value) : List Symbol :=
  parameters items ++ (symbol? tail).toList

/-- The parameters whose place a symbol behind a dot takes. -/
def replaced (items : List Value) (tail : Value) : List Symbol :=
  if (symbol? tail).isSome then behindRest items else []

section
variable {items vs : List Value} {current g : Group} {s : Symbol}

theorem parameters_marker (h : Group.ofMarker? s = some g) :
    parameters (.sym s :: vs) = parameters vs := by simp [parameters, symbol?, h]

theorem parameters_cons (h : Group.ofMarker? s = none) :
    parameters (.sym s :: vs) = s :: parameters vs := by simp [parameters, symbol?, h]

/-- Each parameter belongs to one group. -/
theorem inGroup_perm (current : Group) (items : List Value) :
    (inGroup .required current items ++ inGroup .optional current items ++
      inGroup .rest current items).Perm (parameters items) := by
  induction items generalizing current with
  | nil => exact .refl _
  | cons v vs ih =>
    cases v with
    | sym s =>
      cases hmarker : Group.ofMarker? s with
      | some g =>
        simp only [inGroup, hmarker, parameters_marker hmarker]
        exact ih g
      | none =>
        simp only [inGroup, hmarker, parameters_cons hmarker]
        refine .trans ?_ ((ih current).cons s)
        cases current with
        | required => exact .refl _
        | optional => simp
        | rest =>
          rw [if_neg (by decide), if_neg (by decide), if_pos rfl]
          exact List.perm_middle
    | _ => exact ih current

theorem Group.ofMarker?_rest (h : Group.ofMarker? s = some .rest) : s = ⟨"&rest"⟩ := by
  unfold Group.ofMarker? at h
  split at h
  · cases h
  · split at h
    · rename_i hname
      exact congrArg Symbol.mk hname
    · cases h

/-- Parameters stand behind `&rest` only where there is one. -/
theorem mem_of_inGroup_rest (h : inGroup .rest current items ≠ []) (hcurrent : current ≠ .rest) :
    .sym ⟨"&rest"⟩ ∈ items := by
  induction items generalizing current with
  | nil => exact absurd rfl h
  | cons v vs ih =>
    cases v with
    | sym s =>
      cases hmarker : Group.ofMarker? s with
      | some g =>
        simp only [inGroup, hmarker] at h
        by_cases hg : g = .rest
        · subst hg
          rw [Group.ofMarker?_rest hmarker]
          exact .head _
        · exact .tail _ (ih h hg)
      | none =>
        simp only [inGroup, hmarker, if_neg hcurrent, List.nil_append] at h
        exact .tail _ (ih h hcurrent)
    | _ => exact .tail _ (ih h hcurrent)

end

/-! ## What is accepted -/

section
variable {group g : Group} {p q : ParameterList} {s : Symbol} {items vs : List Value} {tail : Value}

/-- A marker begins a group, any other symbol is a parameter of the group that it stands in. -/
theorem gather_sym : gather group p (.sym s :: vs) =
    match Group.ofMarker? s, group with
    | some g, _ => gather g p vs
    | none, .required => gather .required { p with required := p.required ++ [s] } vs
    | none, .optional => gather .optional { p with optional := p.optional ++ [s] } vs
    | none, .rest =>
      if p.rest.isSome then .error .secondRest else gather .rest { p with rest := some s } vs := by
  by_cases hoptional : s.name = "&optional"
  · simp [gather, Group.ofMarker?, hoptional]
  · by_cases hrest : s.name = "&rest"
    · simp [gather, Group.ofMarker?, hrest]
    · cases group <;> simp [gather, Group.ofMarker?, hoptional, hrest]

/-- The parameters of each group come behind those that the list has already; there is room for one
behind `&rest`. -/
theorem gather_eq_ok_iff : gather group p items = .ok (g, q) ↔
    (∀ v ∈ items, (symbol? v).isSome) ∧ g = lastGroup group items ∧
    q.required = p.required ++ inGroup .required group items ∧
    q.optional = p.optional ++ inGroup .optional group items ∧
    q.rest.toList = p.rest.toList ++ inGroup .rest group items := by
  induction items generalizing group p with
  | nil =>
    obtain ⟨required, optional, rest⟩ := p
    obtain ⟨required', optional', rest'⟩ := q
    have hrest : rest'.toList = rest.toList ↔ rest' = rest := by cases rest <;> cases rest' <;> simp
    simp only [gather, lastGroup, inGroup, hrest, Except.ok.injEq, Prod.mk.injEq,
      ParameterList.mk.injEq, List.append_nil, List.not_mem_nil]
    grind
  | cons v vs ih =>
    cases v with
    | sym s =>
      rw [gather_sym]
      cases hmarker : Group.ofMarker? s with
      | some g' => simp [ih, inGroup, lastGroup, hmarker]
      | none =>
        cases group with
        | required => simp [ih, inGroup, lastGroup, hmarker]
        | optional => simp [ih, inGroup, lastGroup, hmarker]
        | rest =>
          cases hrest : p.rest with
          | none => simp [ih, inGroup, lastGroup, hmarker]
          | some s' =>
            -- a second parameter behind `&rest`
            refine ⟨nofun, fun ⟨_, _, _, _, hlist⟩ => ?_⟩
            have hlength := congrArg List.length hlist
            cases hq : q.rest <;> simp [hq, inGroup, hmarker] at hlength
    | _ => simp [gather, symbol?]

/-- What is made of the elements of a parameter list. -/
theorem gather_empty_eq_ok_iff : gather .required ⟨[], [], none⟩ items = .ok (g, q) ↔
    (∀ v ∈ items, (symbol? v).isSome) ∧ (behindRest items).length ≤ 1 ∧
    g = lastGroup .required items ∧
    q = ⟨inGroup .required .required items, inGroup .optional .required items,
      (behindRest items).head?⟩ := by
  have hlist {rest : Option Symbol} {l : List Symbol} :
      rest.toList = l ↔ l.length ≤ 1 ∧ rest = l.head? := by
    cases rest <;> match l with
      | [] => simp
      | [_] => simp
      | _ :: _ :: _ => simp
  obtain ⟨required, optional, rest⟩ := q
  rw [gather_eq_ok_iff]
  simp only [Option.toList_none, List.nil_append, hlist, ParameterList.mk.injEq, behindRest]
  tauto

/-- The symbol behind the dot is the parameter for the rest, whatever stands behind `&rest`. -/
theorem parse_of_gather (h : gather .required ⟨[], [], none⟩ items = .ok (g, p))
    (htail : tail = .nil ∨ (symbol? tail).isSome) : parse items tail =
      if g = .rest && ((symbol? tail).or p.rest).isNone then .error .restMissing
      else .ok { p with rest := (symbol? tail).or p.rest } := by
  rw [parse, h]
  cases tail with
  | nil | sym => rfl
  | _ => rcases htail with htail | htail <;> cases htail

/-- What is accepted and what is made of it: the parameter for the rest is the symbol behind the
dot, or else the one behind `&rest`. -/
theorem parse_eq_ok_iff : parse items tail = .ok q ↔
    (∀ v ∈ items, (symbol? v).isSome) ∧ (tail = .nil ∨ (symbol? tail).isSome) ∧
    (behindRest items).length ≤ 1 ∧
    (lastGroup .required items = .rest → ((symbol? tail).or (behindRest items).head?).isSome) ∧
    q = ⟨inGroup .required .required items, inGroup .optional .required items,
      (symbol? tail).or (behindRest items).head?⟩ := by
  cases hgather : gather .required ⟨[], [], none⟩ items with
  | error f =>
    have hparse : parse items tail = .error f := by rw [parse, hgather]; rfl
    rw [hparse]
    refine ⟨nofun, fun ⟨hsymbols, _, hlength, _⟩ => ?_⟩
    cases hgather.symm.trans (gather_empty_eq_ok_iff.2 ⟨hsymbols, hlength, rfl, rfl⟩)
  | ok result =>
    obtain ⟨g, p⟩ := result
    obtain ⟨hsymbols, hlength, rfl, rfl⟩ := gather_empty_eq_ok_iff.1 hgather
    by_cases htail : tail = .nil ∨ (symbol? tail).isSome
    · rw [parse_of_gather hgather htail]
      dsimp only
      split
      · rename_i hmissing
        simp only [Bool.and_eq_true, decide_eq_true_eq, Option.isNone_iff_eq_none] at hmissing
        refine ⟨nofun, fun h => ?_⟩
        simpa [hmissing.2] using h.2.2.2.1 hmissing.1
      · rename_i hcomplete
        refine ⟨fun h => ⟨hsymbols, htail, hlength, fun hgroup => ?_, (Except.ok.inj h).symm⟩,
          fun h => congrArg Except.ok h.2.2.2.2.symm⟩
        refine Option.isSome_iff_ne_none.2 fun hnone => hcomplete ?_
        rw [hnone, hgroup]
        rfl
    · have hparse : parse items tail = .error .malformed := by
        rw [parse, hgather]
        cases tail with
        | nil => exact absurd (.inl rfl) htail
        | sym => exact absurd (.inr rfl) htail
        | _ => rfl
      rw [hparse]
      exact ⟨nofun, fun h => absurd h.2.1 htail⟩

end

/-! ## What is named -/

section
variable {p : ParameterList} {items : List Value} {tail : Value}

/-- All that is written is named or has been replaced. -/
theorem names_perm (h : parse items tail = .ok p) :
    (p.names ++ replaced items tail).Perm (written items tail) := by
  obtain ⟨-, -, hlength, -, rfl⟩ := parse_eq_ok_iff.1 h
  have hgroups : (inGroup .required .required items ++ inGroup .optional .required items ++
    behindRest items).Perm (parameters items) := inGroup_perm .required items
  unfold replaced written ParameterList.names
  cases symbol? tail with
  | none =>
    have hrest : (behindRest items).head?.toList = behindRest items := by
      match hbehind : behindRest items, hlength with
      | [], _ => rfl
      | [s], _ => rfl
    simpa [hrest] using hgroups
  | some s =>
    refine .trans ?_ (hgroups.append_right [s])
    simp only [List.append_assoc]
    exact (List.perm_append_comm.append_left _).append_left _

/-- The names are what is written exactly if nothing is replaced. -/
theorem names_perm_iff (h : parse items tail = .ok p) :
    p.names.Perm (written items tail) ↔ replaced items tail = [] := by
  have hall := names_perm h
  constructor
  · intro hnames
    have hlength := hall.length_eq.trans hnames.length_eq.symm
    rw [List.length_append] at hlength
    exact List.eq_nil_of_length_eq_zero (by omega)
  · intro hnone
    rwa [hnone, List.append_nil] at hall

theorem rest_isSome_iff (h : parse items tail = .ok p) :
    p.rest.isSome ↔ behindRest items ≠ [] ∨ (symbol? tail).isSome := by
  obtain ⟨-, -, -, -, rfl⟩ := parse_eq_ok_iff.1 h
  cases symbol? tail <;> cases behindRest items <;> simp

end

end TemplateLisp.ParameterList

namespace TemplateLisp

/-- The elements of a list and what it ends in, unless it has no end. -/
def World.elements? (w : World) (v : Value) : Option (List Value × Value) :=
  (w.spine? v).map fun (cells, tail) => (cells.map (·.car), tail)

theorem Run.fail_after_ne_ok {α β : Type} (x : Run β) (f : β → Fault) (w w' : World) (a : α) :
    (x >>= fun b => fail (f b)).run w ≠ .ok a w' := by
  rw [EStateM.run_bind]
  cases x.run w <;> exact nofun

namespace ParameterList

/-- What a value is accepted as is what its elements and its end are. -/
theorem parse_of_ofValue {room : Room} {v : Value} {p : ParameterList} {w w' : World}
    (h : (ofValue room v).run w = .ok p w') :
    ∃ items tail, w.elements? v = some (items, tail) ∧ parse items tail = .ok p := by
  rw [ofValue, EStateM.run_bind, Run.spine, Run.run_lookOrStop] at h
  unfold World.elements?
  cases hspine : w.spine? v with
  | none =>
    rw [hspine] at h
    cases h
  | some s =>
    obtain ⟨cells, tail⟩ := s
    rw [hspine] at h
    dsimp only at h
    refine ⟨cells.map (·.car), tail, rfl, ?_⟩
    cases hparse : parse (cells.map (·.car)) tail with
    | ok q =>
      rw [hparse] at h
      cases h
      rfl
    | error f =>
      rw [hparse] at h
      cases f with
      | notSymbol | malformed => exact (Run.fail_after_ne_ok _ _ _ _ _ h).elim
      | secondRest | restMissing => cases h

/-- What an accepted parameter list names. A symbol that is written in it is named as many times as
it is written, but for the parameter behind `&rest` where a symbol stands behind a dot: that one is
lost, so the names are all that is written exactly if there are not both. A parameter for the rest
is there exactly if one stands behind `&rest` or a symbol behind the dot, so it is there exactly if
there are `&rest` or the dot unless no parameter stands behind `&rest`. -/
theorem ofValue_names {room : Room} {v : Value} {p : ParameterList} {w w' : World}
    (h : (ofValue room v).run w = .ok p w') :
    ∃ items tail, w.elements? v = some (items, tail) ∧ (tail = .nil ∨ ∃ s, tail = .sym s) ∧
      (p.names ++ replaced items tail).Perm (written items tail) ∧
      (p.names.Perm (written items tail) ↔ behindRest items = [] ∨ tail = .nil) ∧
      (p.rest.isSome ↔ behindRest items ≠ [] ∨ tail ≠ .nil) ∧
      ((p.rest.isSome ↔ .sym ⟨"&rest"⟩ ∈ items ∨ tail ≠ .nil) ↔
        (.sym ⟨"&rest"⟩ ∈ items → behindRest items ≠ [] ∨ tail ≠ .nil)) := by
  obtain ⟨items, tail, helements, hparse⟩ := parse_of_ofValue h
  obtain ⟨-, hend, -⟩ := parse_eq_ok_iff.1 hparse
  have hdotted : (symbol? tail).isSome ↔ tail ≠ .nil := by
    rcases hend with rfl | hsome
    · simp
    · exact iff_of_true hsome (by rintro rfl; cases hsome)
  have hreplaced : replaced items tail = [] ↔ behindRest items = [] ∨ tail = .nil := by
    unfold replaced
    simp only [hdotted, ite_eq_right_iff]
    tauto
  have hrest : p.rest.isSome ↔ behindRest items ≠ [] ∨ tail ≠ .nil := by
    rw [rest_isSome_iff hparse, hdotted]
  have hmarker : behindRest items ≠ [] → .sym ⟨"&rest"⟩ ∈ items := fun h =>
    mem_of_inGroup_rest h nofun
  refine ⟨items, tail, helements, ?_, names_perm hparse,
    (names_perm_iff hparse).trans hreplaced, hrest,
    ?_⟩
  · cases tail with
    | nil => exact .inl rfl
    | sym s => exact .inr ⟨s, rfl⟩
    | _ => rcases hend with hend | hend <;> cases hend
  · rw [hrest]
    tauto

/-- The parameter list `(a &rest b . c)`. -/
def dottedRest : World :=
  { World.empty with
    cells := #[⟨.sym ⟨"a"⟩, .cell ⟨1⟩, none⟩, ⟨.sym ⟨"&rest"⟩, .cell ⟨2⟩, none⟩,
      ⟨.sym ⟨"b"⟩, .sym ⟨"c"⟩, none⟩] }

/-- The list is accepted, and `b` is not named. -/
theorem ofValue_names_dottedRest :
    ∃ p, (ofValue .unbounded (.cell ⟨0⟩)).run dottedRest = .ok p dottedRest ∧
      p.names = [⟨"a"⟩, ⟨"c"⟩] ∧
      dottedRest.elements? (.cell ⟨0⟩) =
        some ([.sym ⟨"a"⟩, .sym ⟨"&rest"⟩, .sym ⟨"b"⟩], .sym ⟨"c"⟩) ∧
      written [.sym ⟨"a"⟩, .sym ⟨"&rest"⟩, .sym ⟨"b"⟩] (.sym ⟨"c"⟩) = [⟨"a"⟩, ⟨"b"⟩, ⟨"c"⟩] ∧
      ¬ p.names.Perm [⟨"a"⟩, ⟨"b"⟩, ⟨"c"⟩] := by
  have hrun : (ofValue .unbounded (.cell ⟨0⟩)).run dottedRest =
      .ok ⟨[⟨"a"⟩], [], some ⟨"c"⟩⟩ dottedRest := rfl
  obtain ⟨items, tail, helements, -, -, hnames, -⟩ := ofValue_names hrun
  have helements' : dottedRest.elements? (.cell ⟨0⟩) =
      some ([.sym ⟨"a"⟩, .sym ⟨"&rest"⟩, .sym ⟨"b"⟩], .sym ⟨"c"⟩) := by cbv
  cases helements'.symm.trans helements
  have hwritten : written [.sym ⟨"a"⟩, .sym ⟨"&rest"⟩, .sym ⟨"b"⟩] (.sym ⟨"c"⟩) =
      [⟨"a"⟩, ⟨"b"⟩, ⟨"c"⟩] := by decide
  rw [hwritten] at hnames
  refine ⟨_, hrun, rfl, helements', hwritten, fun hall => ?_⟩
  exact absurd (hnames.1 hall) (by decide)

/-- Where `&optional` stands behind `&rest` there is no parameter for the rest. -/
example : parse [.sym ⟨"&rest"⟩, .sym ⟨"&optional"⟩, .sym ⟨"a"⟩] .nil =
    .ok ⟨[], [⟨"a"⟩], none⟩ := rfl

end ParameterList

end TemplateLisp
