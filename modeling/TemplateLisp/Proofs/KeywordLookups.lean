import TemplateLisp.Proofs.FormOutcomes
import TemplateLisp.Proofs.UnambiguousMaps
import TemplateLisp.Host.Sample

/-!
# Keywords as functions, and `get`

A keyword looks itself up when it stands at the head of a form or is called like a function, and
`get` looks up any key. Both ask for the keyword itself first. Then the keyword asks for the text of
its name, and `get` for the first key of that name, be it a text or another symbol.

`Maps.keyword_lookups` gives the value of either, in every form that makes the call, and says when
they are one value: they differ where the first key of the name is a symbol other than the keyword.
-/

namespace TemplateLisp

/-! ## Keywords at the head of a form -/

namespace Symbol

variable {s : Symbol}

/-- The name of a keyword starts with a colon. -/
theorem name_of_isKeyword (h : s.isKeyword = true) : ∃ cs, s.name.toList = ':' :: cs := by
  unfold isKeyword at h
  split at h
  · rename_i hname
    exact ⟨_, hname⟩
  · cases h

theorem isMember_of_isKeyword (h : s.isKeyword = true) : s.isMember = false := by
  obtain ⟨cs, hname⟩ := name_of_isKeyword h
  unfold isMember
  rw [hname]
  split
  · rename_i hdot
    cases hdot
  · rfl

/-- No special form has the name of a keyword. -/
theorem specialForm_of_isKeyword (h : s.isKeyword = true) : SpecialForm.ofName? s.name = none := by
  obtain ⟨cs, hname⟩ := name_of_isKeyword h
  unfold SpecialForm.ofName?
  split
  case h_24 => rfl
  all_goals
    rename_i hform
    rw [hform] at hname
    cases hname

end Symbol

/-- At the head of a form, a keyword is called with the values of the arguments. -/
theorem Evaluator.run_keyword [Host] (e : Evaluator) {site : Site} {w : World}
    {q : CellRef} {s : Symbol} (hs : s.isKeyword = true) (hcar : (w.cell q).car = .sym s)
    (htransformer : w.transformer? site.macros s = none) (n : Nat) (tail : Bool) :
    (e.form n tail site q).run w =
      (e.arguments site n [] (w.cell q).cdr >>= fun args => do
        return .value (← Maps.ofKeyword s args)).run w := by
  rw [run_namedForm hcar htransformer (Symbol.specialForm_of_isKeyword hs),
    if_neg (by simp [Symbol.isMember_of_isKeyword hs]), if_pos hs, Run.run_look_bind]

/-! ## Forms that apply a function -/

namespace Site

/-- From `w`, the form is a call of the function with the arguments, which have their values in
`w'`. The function is named at the head, or it is the value of a head that is no symbol, or
`funcall` or `apply` is called with it. -/
inductive Applies [Host] (site : Site) (f : Value) (args : List Value) (w : World) :
    Value → World → Prop where
  | named {w' : World} {q : CellRef} {g : Symbol} (head : (w.cell q).car = .sym g)
      (function : site.Names w g f) (arguments : site.Gives w (w.cell q).cdr args w') :
      Applies site f args w (.cell q) w'
  | computed {w₁ w' : World} {q : CellRef} (head : ∀ g, (w.cell q).car ≠ .sym g)
      (function : site.HasValue w (w.cell q).car f w₁)
      (arguments : site.Gives w₁ (w₁.cell q).cdr args w') : Applies site f args w (.cell q) w'
  | funcall {w' : World} {q : CellRef} {g : Symbol} (head : (w.cell q).car = .sym g)
      (funcall : site.Names w g (.builtin .funcall))
      (arguments : site.Gives w (w.cell q).cdr (f :: args) w') : Applies site f args w (.cell q) w'
  | apply {w' : World} {q : CellRef} {g : Symbol} {list : Value} (head : (w.cell q).car = .sym g)
      (apply : site.Names w g (.builtin .apply))
      (arguments : site.Gives w (w.cell q).cdr [f, list] w') (items : w'.ListOf list args) :
      Applies site f args w (.cell q) w'

variable {site : Site} {w w₁ w' w'' : World} {f v : Value} {args : List Value} {form : Value}

/-- A form with a value has it in tail position as well. -/
theorem HasValue.comesTo [Host] (hroom : site.room = .unbounded) (h : site.HasValue w form v w')
    (tail : Bool) : site.ComesTo tail form w (.ok v w') := by
  have hvalue : site.ComesTo false form w (.ok v w') := comesTo_false.2 h.unplaced
  cases tail with
  | false => exact hvalue
  | true => exact (comesTo_tail hroom form).2 hvalue

/-- A pair has the value that its form gives. -/
theorem hasValue_cell [Host] (hroom : site.room = .unbounded) {q : CellRef}
    (h : Run.ComesTo (fun n => (evaluator n).form n false site q) w
      (.ok (.value v : Answer false) w')) : site.HasValue w (.cell q) v w' :=
  .of_answers (answers_cell hroom h)

section
variable {i : Interpreter} (hsite : site.Of i)
include hsite

/-- What a call comes to, it comes to from the form that makes it. -/
theorem Of.apply_of_call [Host] (hcall : Run.ComesTo (fun n => call n site f args) w (.ok v w')) :
    Run.ComesTo (fun n => (evaluator n).apply n false site f args) w
      (.ok (.value v : Answer false) w') := by
  obtain ⟨-, k, hk⟩ := hcall
  refine ⟨nofun, k, fun n hn => ?_⟩
  have hrun : (call (n + 1) site f args).run w = .ok v w' := hk (n + 1) (by omega)
  rw [hsite.call_eq, EStateM.run_bind] at hrun
  cases happly : ((evaluator n).apply n false site f args).run w with
  | error s w₁ =>
    rw [happly] at hrun
    cases hrun
  | ok a w₁ =>
    rw [happly] at hrun
    cases a
    cases hrun
    rfl

/-- A form whose head names a function has the value of the call. -/
theorem Of.hasValue_named [Host] (hroom : site.room = .unbounded) {q : CellRef} {g : Symbol}
    (hcar : (w.cell q).car = .sym g) (hg : site.Names w g f)
    (hargs : site.Gives w (w.cell q).cdr args w')
    (hcall : Run.ComesTo (fun n => call n site f args) w' (.ok v w'')) :
    site.HasValue w (.cell q) v w'' := by
  refine hasValue_cell hroom ?_
  have hq : w.cell q = ⟨.sym g, (w.cell q).cdr, (w.cell q).pos⟩ := by rw [← hcar]
  have hform (n : Nat) := Evaluator.run_form hq hg (evaluator n) n false
  simpa only [Run.ComesTo, hform] using hargs.bind (hsite.apply_of_call hcall)

variable (hroom : site.room = .unbounded)
include hroom

omit hsite in
/-- What a call comes to from the same site, it comes to through a built-in function
that makes it. -/
theorem comesTo_through [Host] {g : Value} {gargs : List Value} (name : String)
    (hrun : ∀ n, (call (n + 1) site g gargs).run w =
      (Run.orHostFault name (call n { site with room := .unbounded } f args)).run w)
    (hcall : Run.ComesTo (fun n => call n site f args) w (.ok v w')) :
    Run.ComesTo (fun n => call n site g gargs) w (.ok v w') := by
  have hsame : { site with room := .unbounded } = site := by rw [← hroom]
  obtain ⟨-, k, hk⟩ := hcall
  refine Run.comesTo_succ.1 ⟨nofun, k, fun n hn => ?_⟩
  dsimp only
  rw [hrun, hsame, Run.orHostFault, Run.run_tryCatch, hk n hn]

/-- A form that calls a function has the value of the call. -/
theorem Applies.hasValue [Host] (h : site.Applies f args w form w') (hf : f.isCallable = true)
    (hcall : Run.ComesTo (fun n => call n site f args) w' (.ok v w'')) :
    site.HasValue w form v w'' := by
  have henter : site.room.enter? = some .unbounded := by rw [hroom]; rfl
  cases h with
  | named head function arguments =>
    exact hsite.hasValue_named hroom head function arguments hcall
  | @computed w₁ _ q head function arguments =>
    refine hasValue_cell hroom ?_
    have hhead (n : Nat) : ((evaluator n).form n false site q).run w = _ :=
      (evaluator n).run_head head n false
    have hrest : Run.ComesTo (fun n => (evaluator n).callHead n false site q (w.cell q).car f) w₁
        (.ok (.value v : Answer false) w'') := by
      simpa only [Run.ComesTo, Evaluator.run_callHead _ hf] using
        arguments.bind (hsite.apply_of_call hcall)
    simpa only [Run.ComesTo, hhead] using Run.ComesTo.bind function hrest
  | funcall head funcall arguments =>
    exact hsite.hasValue_named hroom head funcall arguments <|
      comesTo_through hroom "funcall" (fun n => by rw [hsite.call_funcall henter n hf]) hcall
  | apply head apply arguments items =>
    obtain ⟨cells, hspine, rfl⟩ := items
    exact hsite.hasValue_named hroom head apply arguments <|
      comesTo_through hroom "apply" (fun n => hsite.call_apply henter n hf hspine) hcall

end

end Site

/-! ## The first key of a name -/

namespace World

/-- The first entry whose key has the name. -/
def firstNamed? (name : String) (es : List (Value × Value)) : Option (Value × Value) :=
  es.find? fun e => keyName? e.1 = some name

section
variable {w : World} {es : List (Value × Value)} {name : String}

/-- A value with a name is one key with itself only. -/
theorem sameKey_named {a b : Value} (hb : keyName? b = some name) :
    w.sameKey a b = true ↔ a = b := by
  refine ⟨fun h => ?_, fun h => h ▸ w.sameKey_refl a⟩
  rcases sameKeyAt_succ_iff.1 h with rfl | ⟨x, y, -, hy, -⟩ | ⟨r, s, -, rfl, -⟩
  · rfl
  · rcases keyName?_eq_some hb with ⟨s, rfl⟩ | rfl <;> cases hy
  · cases hb

/-- A key with a name matches the keys of the same name, and so do the others with it. -/
theorem matches_named {k c : Value} (hk : w.Founded k)
    (hname : keyName? k = some name ∨ keyName? c = some name) :
    w.Matches k c ↔ keyName? k = keyName? c := by
  rw [Matches, keysMatch_iff, sameName_iff]
  constructor
  · rintro (hequal | ⟨-, _, hk, hc⟩)
    · rw [eq_of_equal_named hequal (hname.imp (by simp [·]) (by simp [·]))]
    · rw [hk, hc]
  · intro hsame
    refine .inr ⟨hk.equal c, name, ?_⟩
    rcases hname with hname | hname
    · exact ⟨hname, hsame ▸ hname⟩
    · exact ⟨hsame.trans hname, hname⟩

/-- The first key that matches, where the comparisons with the key that is looked up end. -/
theorem Founded.matchingKey? {k : Value} (hk : w.Founded k) (es : List (Value × Value)) :
    w.matchingKey? .unbounded k es =
      .ok ((es.find? fun e => w.Matches k e.1).map Prod.fst) := by
  induction es with
  | nil => rfl
  | cons e es ih =>
    obtain ⟨answer, hanswer⟩ := decides_keysMatch (hk.equal e.1)
    rw [List.find?_cons]
    cases answer with
    | true => rw [matchingKey?_of_match hanswer, decide_eq_true hanswer]; rfl
    | false =>
      have hother : ¬ w.Matches k e.1 := by simp [Matches, Passes, hanswer]
      rw [matchingKey?_of_other hanswer, ih, decide_eq_false hother]

theorem founded_symbol (w : World) (s : Symbol) : w.Founded (.sym s) :=
  AtMostDeep.founded (n := 0) rfl

theorem matchingKey?_symbol (w : World) (s : Symbol) (es : List (Value × Value)) :
    w.matchingKey? .unbounded (.sym s) es = .ok ((firstNamed? s.bareName es).map Prod.fst) := by
  have hname (c : Value) : w.Matches (.sym s) c ↔ keyName? c = some s.bareName :=
    (matches_named (w.founded_symbol s) (.inl rfl)).trans eq_comm
  simp only [(w.founded_symbol s).matchingKey?, hname, firstNamed?]

/-- The first entry of a name is the one that is found under its key. -/
theorem findKey?_firstNamed {e : Value × Value} (h : firstNamed? name es = some e) :
    w.findKey? es e.1 = some e.2 := by
  have he : keyName? e.1 = some name := by simpa using List.find?_some h
  induction es with
  | nil => cases h
  | cons e' es ih =>
    rw [findKey?_cons]
    rw [firstNamed?, List.find?_cons] at h
    split at h
    · cases h
      rw [if_pos (w.sameKey_refl _)]
    · rename_i hother
      rw [if_neg, ih h]
      rw [sameKey_named he]
      rintro hsame
      rw [hsame, he] at hother
      simp at hother

/-- The look-up of a symbol gives its own value, or else that of the first key of its name. -/
theorem lookUp?_symbol (w : World) (s : Symbol) (es : List (Value × Value)) :
    w.lookUp? .unbounded es (.sym s) =
      .ok ((w.findKey? es (.sym s)).or ((firstNamed? s.bareName es).map Prod.snd)) := by
  rw [lookUp?]
  cases w.findKey? es (.sym s) with
  | some v => rfl
  | none =>
    rw [matchingKey?_symbol]
    cases hfirst : firstNamed? s.bareName es with
    | none => rfl
    | some e => exact congrArg Except.ok (findKey?_firstNamed hfirst)

theorem findKey?_named {c v : Value} (hc : keyName? c = some name)
    (h : w.findKey? es c = some v) : (c, v) ∈ es := by
  obtain ⟨e, he, rfl⟩ := Option.map_eq_some_iff.1 h
  have hsame : w.sameKey e.1 c = true := by simpa using List.find?_some he
  obtain rfl := (sameKey_named hc).1 hsame
  exact List.mem_of_find?_eq_some he

end

end World

/-! ## The two look-ups -/

namespace Maps

variable {w : World} {es : List (Value × Value)} {s : Symbol}

/-- What a keyword looks up: its own value, or else that of the text of its name. -/
def ownOrText? (w : World) (es : List (Value × Value)) (s : Symbol) : Option Value :=
  (w.findKey? es (.sym s)).or (w.findKey? es (.str s.bareName))

/-- What `get` looks up for a symbol: its own value, or else that of the first key of its name. -/
def ownOrNamed? (w : World) (es : List (Value × Value)) (s : Symbol) : Option Value :=
  (w.findKey? es (.sym s)).or ((World.firstNamed? s.bareName es).map Prod.snd)

theorem run_ofKeyword (w : World) (s : Symbol) (r : MapRef) (default? : Option Value) :
    (ofKeyword s (.map r :: default?.toList)).run w =
      .ok ((ownOrText? w (w.entries r) s).getD (default?.getD .nil)) w := by
  cases default? <;> rfl

theorem run_get_symbol [Host] (w : World) (s : Symbol) (r : MapRef) (default? : Option Value) :
    (get .unbounded (.map r) (.sym s) default?).run w =
      .ok ((ownOrNamed? w (w.entries r) s).getD (default?.getD .nil)) w :=
  run_get_default rfl (w.lookUp?_symbol s _) default?

/-- The two look-ups agree unless another symbol is the first key of the name. -/
theorem ownOrText?_eq (h : (w.findKey? es (.sym s)).isSome = true ∨
      ∀ c v, World.firstNamed? s.bareName es = some (c, v) → c = .str s.bareName) :
    ownOrText? w es s = ownOrNamed? w es s := by
  unfold ownOrText? ownOrNamed?
  cases hown : w.findKey? es (.sym s) with
  | some v => rfl
  | none =>
    rw [hown, Option.isSome_none, Bool.false_eq_true, false_or] at h
    rw [Option.none_or, Option.none_or]
    cases hfirst : World.firstNamed? s.bareName es with
    | none =>
      refine Option.eq_none_iff_forall_ne_some.2 fun v hv => ?_
      have hmem : (Value.str s.bareName, v) ∈ es := World.findKey?_named rfl hv
      have hnamed := List.find?_eq_none.1 hfirst _ hmem
      simp [World.keyName?] at hnamed
    | some e =>
      obtain ⟨c, v⟩ := e
      obtain rfl := h c v hfirst
      exact World.findKey?_firstNamed hfirst

/-! ## The calls -/

section
variable {i : Interpreter} {site : Site} (hsite : site.Of i) (s : Symbol) (r : MapRef)
  (default? : Option Value)
include hsite

theorem call_keyword [Host] (hs : s.isKeyword = true) (w : World) :
    Run.ComesTo (fun n => call n site (.sym s) (.map r :: default?.toList)) w
      (.ok ((ownOrText? w (w.entries r) s).getD (default?.getD .nil)) w) := by
  refine Run.comesTo_succ.1 (.of_forall fun n => ?_)
  rw [hsite.call_eq, Evaluator.apply, if_pos hs, bind_assoc, EStateM.run_bind, run_ofKeyword]
  rfl

theorem call_get [Host] (hroom : site.room = .unbounded) (w : World) :
    Run.ComesTo (fun n => call n site (.builtin .get) (.map r :: .sym s :: default?.toList)) w
      (.ok ((ownOrNamed? w (w.entries r) s).getD (default?.getD .nil)) w) := by
  have henter : site.room.enter? = some .unbounded := by rw [hroom]; rfl
  have hget (call : Caller) :
      (Builtin.get.run .unbounded call (.map r :: .sym s :: default?.toList)).run w =
        (get .unbounded (.map r) (.sym s) default?).run w := by cases default? <;> rfl
  refine Run.comesTo_succ.1 (.of_forall fun n => ?_)
  rw [hsite.call_builtin henter, Run.orHostFault, Run.run_tryCatch, hget, run_get_symbol]

end

/-- At a site of an interpreter a keyword is looked up in a map by forms of three kinds: with the
keyword at the head, with the keyword as a function that is called, and with `get`. The first two
give the value of the keyword itself or else of the text of its name, as do calls of the keyword
from built-in functions. The third gives the value of the keyword itself or else of the first key of
its name. The values are one and the same if the keyword itself is a key, or no key has its name, or
the first that has it is the text. If the first one is a symbol other than the keyword, which is no
key itself, `get` gives its value, and the keyword that of the text. -/
theorem keyword_lookups [Host] {i : Interpreter} {site : Site} (hsite : site.Of i)
    (hroom : site.room = .unbounded) {s : Symbol} (hs : s.isKeyword = true) (w : World) (r : MapRef)
    (default? : Option Value) :
    (∀ (w₀ : World) (q : CellRef) (tail : Bool), (w₀.cell q).car = .sym s →
      w₀.transformer? site.macros s = none →
      site.Gives w₀ (w₀.cell q).cdr (.map r :: default?.toList) w →
      site.ComesTo tail (.cell q) w₀
        (.ok ((ownOrText? w (w.entries r) s).getD (default?.getD .nil)) w)) ∧
    (∀ (w₀ : World) (form : Value) (tail : Bool),
      site.Applies (.sym s) (.map r :: default?.toList) w₀ form w →
      site.ComesTo tail form w₀
        (.ok ((ownOrText? w (w.entries r) s).getD (default?.getD .nil)) w)) ∧
    (∀ env, Invocation.ComesTo ⟨.sym s, .map r :: default?.toList, .unbounded, w⟩ i env
      (.ok ((ownOrText? w (w.entries r) s).getD (default?.getD .nil)) w)) ∧
    (∀ (w₀ : World) (form : Value) (tail : Bool),
      site.Applies (.builtin .get) (.map r :: .sym s :: default?.toList) w₀ form w →
      site.ComesTo tail form w₀
        (.ok ((ownOrNamed? w (w.entries r) s).getD (default?.getD .nil)) w)) ∧
    ((w.findKey? (w.entries r) (.sym s)).isSome = true ∨
        (∀ c v, World.firstNamed? s.bareName (w.entries r) = some (c, v) → c = .str s.bareName) →
      ownOrText? w (w.entries r) s = ownOrNamed? w (w.entries r) s) ∧
    ∀ c v, w.findKey? (w.entries r) (.sym s) = none →
      World.firstNamed? s.bareName (w.entries r) = some (.sym c, v) →
      ownOrNamed? w (w.entries r) s = some v ∧
      ownOrText? w (w.entries r) s = w.findKey? (w.entries r) (.str s.bareName) := by
  have hkeyword := call_keyword hsite s r default? hs w
  refine ⟨fun w₀ q tail hcar htransformer hargs => ?_, fun w₀ form tail h => ?_, fun env => ?_,
    fun w₀ form tail h => ?_, ownOrText?_eq, fun c v hown hfirst => ?_⟩
  · refine (Site.hasValue_cell hroom ?_).comesTo hroom tail
    have hform (n : Nat) := (evaluator n).run_keyword hs hcar htransformer n false
    simp only [Run.ComesTo, hform]
    refine hargs.bind (.of_forall fun n => ?_)
    rw [EStateM.run_bind, run_ofKeyword]
    rfl
  · exact (h.hasValue hsite hroom hs hkeyword).comesTo hroom tail
  · have hcaller : Site.Of ⟨env, i.macros, some i.macros, .unbounded⟩ i := ⟨rfl, rfl⟩
    exact (call_keyword hcaller s r default? hs w).unplaced
  · exact (h.hasValue hsite hroom rfl (call_get hsite s r default? hroom w)).comesTo hroom tail
  · rw [ownOrNamed?, ownOrText?, hown, hfirst]
    exact ⟨rfl, rfl⟩

/-- A world with a map that has a symbol as its key, and three forms that look the keyword of the
name up in it: `(:a m 0)`, `(funcall :a m 0)` and `(get m :a 0)`. -/
def symbolKeyWorld : World :=
  { World.empty with
    cells := #[⟨.sym ⟨":a"⟩, .cell ⟨1⟩, some ⟨1, 1⟩⟩, ⟨.sym ⟨"m"⟩, .cell ⟨2⟩, none⟩,
      ⟨.int 0, .nil, none⟩,
      ⟨.sym ⟨"funcall"⟩, .cell ⟨0⟩, some ⟨2, 1⟩⟩,
      ⟨.sym ⟨"get"⟩, .cell ⟨5⟩, some ⟨3, 1⟩⟩, ⟨.sym ⟨"m"⟩, .cell ⟨6⟩, none⟩,
      ⟨.sym ⟨":a"⟩, .cell ⟨2⟩, none⟩]
    maps := #[[(.sym ⟨"a"⟩, .int 1)]]
    frames := #[⟨Bindings.ofNames [(⟨"m"⟩, .map (.own 0)), (⟨"funcall"⟩, .builtin .funcall),
      (⟨"get"⟩, .builtin .get)], none⟩]
    macroTables := #[[]] }

open scoped SampleHost in
/-- The keyword does not find the value of the symbol, and `get` does. -/
theorem keyword_lookups_symbolKey :
    addingSite.ComesTo true (.cell ⟨0⟩) symbolKeyWorld (.ok (.int 0) symbolKeyWorld) ∧
    addingSite.ComesTo true (.cell ⟨3⟩) symbolKeyWorld (.ok (.int 0) symbolKeyWorld) ∧
    addingSite.ComesTo true (.cell ⟨4⟩) symbolKeyWorld (.ok (.int 1) symbolKeyWorld) := by
  have hgives {forms : Value} {args : List Value}
      (h : ((evaluator 5).arguments addingSite 5 [] forms).run symbolKeyWorld =
        .ok args symbolKeyWorld) : addingSite.Gives symbolKeyWorld forms args symbolKeyWorld :=
    .of_run (fun hle => (evaluator_below hle).arguments hle addingSite [] forms) h nofun
  have hsite : addingSite.Of addingInterpreter := ⟨rfl, rfl⟩
  have hkeyword : (⟨":a"⟩ : Symbol).isKeyword = true := rfl
  obtain ⟨hhead, happlied, -, hget, -, hother⟩ :=
    keyword_lookups hsite rfl hkeyword symbolKeyWorld (.own 0) (some (.int 0))
  obtain ⟨hnamed, htext⟩ := hother ⟨"a"⟩ (.int 1) (by decide +kernel) (by decide +kernel)
  rw [htext] at hhead happlied
  rw [hnamed] at hget
  exact ⟨hhead _ ⟨0⟩ true rfl rfl (hgives (by cbv)),
    happlied _ (.cell ⟨3⟩) true
      (.funcall rfl ⟨rfl, rfl, rfl, rfl, rfl, rfl⟩ (hgives (by cbv))),
    hget _ (.cell ⟨4⟩) true (.named rfl ⟨rfl, rfl, rfl, rfl, rfl, rfl⟩ (hgives (by cbv)))⟩

end Maps

end TemplateLisp
