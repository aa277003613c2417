import TemplateLisp.Proofs.SnakeCase
import TemplateLisp.Proofs.Transcript
import TemplateLisp.Host.Sample

/-!
# Hidden members

A host object may be anything, so what counts is what it answers when it is asked for an attribute:
`Receiver` is any such thing, and `Receiver.member` is access to its members. Every value that has
attributes is one (`Run.member_eq_receiver`), whatever the code of the host is.

The names that are hidden, those that begin with an underscore, tell nothing about an object:
objects that answer alike to all other names cannot be told apart by access to members
(`Receiver.Agrees.member`). This needs that a look-up never gets from a name that is not hidden to
one that is. Names change at one place, the snake-case spelling, which puts underscores between the
characters and maps each of them: it keeps the first one in front, and lower case makes an
underscore of nothing but an underscore (`isHiddenMember_snakeCase`).
-/

namespace TemplateLisp

/-! ## The snake-case spelling -/

namespace Text

/-- The counterparts of capitals lie behind the underscore, which is character 95. -/
theorem lowerRuns_behind : ∀ r ∈ lowerRuns, (95 : Int) < r.first + r.shift := by
  decide +kernel

theorem lowerSequences_behind : ∀ s ∈ lowerSequences, ∃ n ns, s.2 = n :: ns ∧ 95 < n := by
  simp [lowerSequences]

theorem ofNat_ne_underscore {n : Nat} (h : 95 < n) : Char.ofNat n ≠ '_' := by
  intro heq
  by_cases hvalid : n.isValidChar
  · rw [Char.ofNat, dif_pos hvalid] at heq
    exact absurd (congrArg Char.toNat heq) (Nat.ne_of_gt h)
  · rw [Char.ofNat, dif_neg hvalid] at heq
    exact absurd heq (by decide)

theorem lowerChar_ne_underscore {c : Char} (hc : c ≠ '_') :
    ∃ d rest, lowerChar c = d :: rest ∧ d ≠ '_' := by
  unfold lowerChar
  split
  · rename_i hascii
    exact ⟨_, _, rfl, mt (toLower_eq_underscore c hascii).1 hc⟩
  · rw [mapCase]
    split
    · rename_i ns hns
      obtain ⟨before, behind, hsplit, -⟩ := List.lookup_eq_some_iff.1 hns
      have hmem : (c.toNat, ns) ∈ lowerSequences := by
        rw [hsplit]
        exact List.mem_append_right before List.mem_cons_self
      obtain ⟨n, ns, rfl, hn⟩ := lowerSequences_behind _ hmem
      exact ⟨_, _, rfl, ofNat_ne_underscore hn⟩
    · split
      · rename_i n hn
        obtain ⟨r, hr, himage⟩ := List.exists_of_findSome?_eq_some hn
        refine ⟨_, _, rfl, ofNat_ne_underscore ?_⟩
        rw [CaseRun.image?] at himage
        split at himage
        · rename_i hin
          have hbehind := lowerRuns_behind r hr
          simp only [Bool.and_eq_true, decide_eq_true_eq] at hin
          cases himage
          omega
        · cases himage
      · exact ⟨_, _, rfl, hc⟩

/-- A text that begins with something else than an underscore does so in lower case. -/
theorem lower_cons_ne_underscore {c : Char} (hc : c ≠ '_') (s : List Char) :
    ∃ d rest, lower (c :: s) = d :: rest ∧ d ≠ '_' := by
  rw [lower, lowerAfter]
  split
  · refine ⟨lowerSigma [] s, _, rfl, ?_⟩
    rw [lowerSigma]
    split <;> decide
  · obtain ⟨d, rest, hlower, hd⟩ := lowerChar_ne_underscore hc
    exact ⟨d, rest ++ lowerAfter [c] s, by rw [hlower, List.cons_append], hd⟩

theorem splitWords_cons (c : Char) (rest : List Char) : ∃ rest', splitWords (c :: rest) =
    c :: rest' := by
  cases rest with
  | nil => exact ⟨[], rfl⟩
  | cons d rest =>
    rw [splitWords]
    split <;> exact ⟨_, rfl⟩

end Text

theorem isHiddenMember_of_cons {name : String} {c : Char} {rest : List Char}
    (h : name.toList = c :: rest) : isHiddenMember name = decide (c = '_') := by
  rw [isHiddenMember, h]

/-- The snake-case spelling of a name is hidden only if the name is. -/
theorem isHiddenMember_snakeCase {name : String} (h : isHiddenMember name = false) :
    isHiddenMember (String.ofList (Text.snakeCase name.toList)) = false := by
  cases hname : name.toList with
  | nil =>
    rw [isHiddenMember, hname] at h
    cases h
  | cons c cs =>
    rw [isHiddenMember_of_cons hname, decide_eq_false_iff_not] at h
    obtain ⟨rest, hrest⟩ := Text.splitWords_cons c cs
    obtain ⟨d, ds, hlower, hd⟩ := Text.lower_cons_ne_underscore h rest
    rw [Text.snakeCase, hrest, hlower, isHiddenMember_of_cons String.toList_ofList,
      decide_eq_false hd]

/-! ## Receivers -/

/-- What a receiver has under a name: a value, or a method, which takes arguments. -/
inductive Receiver.Attribute where
  | value (v : Value)
  | method (call : List Value → Run Value)

/-- A host object, as access to its members sees it: what its type is called, and what it answers
when it is asked for an attribute. -/
structure Receiver where
  typeName : String
  ask : String → Run (Option Receiver.Attribute)

namespace Receiver

/-- What a name stands for: the attribute of that name, or else that of its snake-case spelling. -/
def find (o : Receiver) (name : String) : Run (Option Attribute) := do
  match ← o.ask name with
  | some a => return some a
  | none =>
    let other := String.ofList (Text.snakeCase name.toList)
    if other = name then return none else o.ask other

/-- What is made of an attribute: the value, or the result of calling the method. -/
def use (o : Receiver) (name : String) (args : List Value) : Option Attribute → Run Value
  | none => Run.fail (.access name (.missing o.typeName))
  | some (.method call) => Run.orAccessFault false name (.callFailed o.typeName) (call args)
  | some (.value v) =>
    if args.isEmpty then return v else Run.fail (.access name (.notAMethod o.typeName))

/-- The value of a member, or the result of calling it. -/
def member (o : Receiver) (name : String) (args : List Value) : Run Value :=
  if isHiddenMember name then Run.fail (.access name .hidden)
  else Run.orAccessFault true name (.accessFailed o.typeName) (o.find name) >>= o.use name args

end Receiver

/-! ## Values as receivers -/

/-- The value has attributes: it is neither nothing nor a map, nor does it resolve its members
itself. -/
def World.hasAttributes (w : World) : Value → Bool
  | .nil | .null | .map _ => false
  | .object r => !(w.object r).kind.resolvable
  | _ => true

section
variable [Host] (room : Room) (call : FrameRef → Caller)

/-- What a member of a value is to a receiver. -/
def Receiver.Attribute.ofMember : Member → Attribute
  | .value v => .value v
  | m => .method fun args => Run.callMember room call args m

/-- A value as a receiver. -/
def Receiver.ofValue (w : World) (receiver : Value) : Receiver where
  typeName := w.typeName receiver
  ask name := do return (← Run.memberOf room call receiver name).map (Attribute.ofMember room call)

end

namespace Run

section
variable [Host] {room : Room} {call : FrameRef → Caller} {receiver : Value} {w : World}

theorem run_findMember (h : w.hasAttributes receiver = true) (name : String) :
    (findMember room call receiver name).run w = (attributeOf room call receiver name).run w := by
  unfold findMember
  split
  · cases h
  · rename_i r
    rw [run_look_bind, if_neg]
    simpa [World.hasAttributes] using h
  · rfl

theorem find_ofValue (name : String) : (Receiver.ofValue room call w receiver).find name =
    do return (← attributeOf room call receiver name).map (.ofMember room call) := by
  unfold Receiver.find attributeOf
  simp only [Receiver.ofValue, bind_assoc, pure_bind]
  refine bind_congr fun found => ?_
  cases found with
  | some m => rfl
  | none =>
    dsimp only [Option.map_none]
    split <;> simp

end

theorem run_orAccessFault {α : Type} (mayRefuse : Bool) (name : String)
    (asFault : HostFault → AccessFault) (x : Run α) (w : World) :
    (orAccessFault mayRefuse name asFault x).run w = match x.run w with
      | .ok a w' => .ok a w'
      | .error s w' => .error (accessStop mayRefuse name asFault s) w' := by
  rw [orAccessFault, run_tryCatch]
  cases x.run w <;> rfl

/-- Access to members of a value that has attributes is access to members of a receiver. -/
theorem member_eq_receiver [Host] {room : Room} {call : FrameRef → Caller}
    {receiver : Value} {w : World} (h : w.hasAttributes receiver = true) (name : String)
    (args : List Value) : (member room call receiver name args).run w =
      ((Receiver.ofValue room call w receiver).member name args).run w := by
  have hthere : (receiver = .nil || receiver = .null) = false := by
    cases receiver <;> first | rfl | cases h
  unfold member Receiver.member
  split
  · rfl
  · simp only [hthere, Bool.false_eq_true, if_false]
    rw [find_ofValue, typeName, run_look_bind, EStateM.run_bind, EStateM.run_bind,
      run_orAccessFault, run_orAccessFault, EStateM.run_bind, run_findMember h]
    cases (attributeOf room call receiver name).run w with
    | error s w' => rfl
    | ok found w' =>
      cases found with
      | none => rfl
      | some m => cases m <;> rfl

end Run

/-! ## Objects that hidden names tell apart -/

namespace Receiver

/-- Two objects answer alike from a world: they give one value, or methods that give the
same for any arguments, or stop the same way. If neither has the attribute, the world they
leave is in `S`. -/
inductive SameAnswer (S : World → Prop) : EStateM.Result Stop World (Option Attribute) →
    EStateM.Result Stop World (Option Attribute) → Prop where
  | missing {w : World} (inside : S w) : SameAnswer S (.ok none w) (.ok none w)
  | value (v : Value) (w : World) : SameAnswer S (.ok (some (.value v)) w) (.ok (some (.value v)) w)
  | method {call call' : List Value → Run Value} {w : World}
      (results : ∀ args, (call args).run w = (call' args).run w) :
      SameAnswer S (.ok (some (.method call)) w) (.ok (some (.method call')) w)
  | stopped (s : Stop) (w : World) : SameAnswer S (.error s w) (.error s w)

/-- Two objects whose types have one name and that answer alike, in the worlds in `S`, when they are
asked for anything but a hidden name. -/
structure Agrees (S : World → Prop) (o o' : Receiver) : Prop where
  typeName : o.typeName = o'.typeName
  ask : ∀ name, isHiddenMember name = false → ∀ w, S w →
    SameAnswer S ((o.ask name).run w) ((o'.ask name).run w)

variable {S : World → Prop} {o o' : Receiver}

theorem SameAnswer.refl {x : EStateM.Result Stop World (Option Attribute)}
    (h : ∀ w, x = .ok none w → S w) : SameAnswer S x x := by
  cases x with
  | error s w => exact .stopped s w
  | ok found w =>
    match found with
    | none => exact .missing (h w rfl)
    | some (.value v) => exact .value v w
    | some (.method call) => exact .method fun _ => rfl

/-- The second look-up of a name is for one that is not hidden either. -/
theorem Agrees.find (h : o.Agrees S o') {name : String} (hname : isHiddenMember name = false)
    {w : World} (hw : S w) : SameAnswer S ((o.find name).run w) ((o'.find name).run w) := by
  have hask := h.ask name hname w hw
  unfold Receiver.find
  rw [EStateM.run_bind, EStateM.run_bind]
  generalize (o.ask name).run w = x, (o'.ask name).run w = x' at hask
  cases hask with
  | missing inside =>
    dsimp only
    split
    · exact .missing inside
    · exact h.ask _ (isHiddenMember_snakeCase hname) _ inside
  | value v w => exact .value v w
  | method results => exact .method results
  | stopped s w => exact .stopped s w

theorem Agrees.member (h : o.Agrees S o') (name : String) (args : List Value)
    {w : World} (hw : S w) : (o.member name args).run w = (o'.member name args).run w := by
  unfold Receiver.member
  split
  · rfl
  · rename_i hname
    have hfind := h.find (Bool.not_eq_true _ ▸ hname) hw
    rw [EStateM.run_bind, EStateM.run_bind, Run.run_orAccessFault,
      Run.run_orAccessFault, h.typeName]
    generalize (o.find name).run w = x, (o'.find name).run w = x' at hfind
    cases hfind with
    | missing => simp only [use, h.typeName]
    | value => simp only [use, h.typeName]
    | method results =>
      dsimp only [use]
      rw [Run.run_orAccessFault, Run.run_orAccessFault, results, h.typeName]
    | stopped => rfl

/-- The object with other answers for the hidden names: whatever `probe` does. -/
def probed (o : Receiver) (probe : String → Run (Option Attribute)) : Receiver :=
  { o with ask := fun name => if isHiddenMember name then probe name else o.ask name }

/-- An object and one with other answers for the hidden names agree. -/
theorem agrees_probed (o : Receiver) (probe : String → Run (Option Attribute)) :
    (o.probed probe).Agrees (fun _ => True) o where
  typeName := rfl
  ask name hname w _ := by
    rw [probed]
    simp only [hname, Bool.false_eq_true, if_false]
    exact .refl fun _ _ => trivial

end Receiver

/-! ## Access to hidden members -/

theorem isHiddenMember_eq_true_iff (name : String) :
    isHiddenMember name = true ↔ name = "" ∨ name.toList.head? = some '_' := by
  rw [← String.toList_eq_nil_iff, isHiddenMember]
  cases name.toList <;> simp

/-- Hidden members are out of reach. Two host objects whose types have one name and that answer
alike to all names that are not hidden cannot be told apart by access to members: whatever the name
and the arguments, it comes to the same. A hidden name is never looked up, so that what an object
would answer to one makes no difference; the snake-case spelling of a name is hidden only if the
name is. All this holds of every value that has attributes and for any code of the host, as such a
value is a receiver. Access under a name that is empty or begins with an underscore is refused at
once, whatever the receiver is. -/
theorem hidden_members_unreachable [Host] :
    (∀ (S : World → Prop) (o o' : Receiver), o.Agrees S o' → ∀ (name : String) (args : List Value)
      (w : World), S w → (o.member name args).run w = (o'.member name args).run w) ∧
    (∀ (o : Receiver) (probe : String → Run (Option Receiver.Attribute)) (name : String)
      (args : List Value), (o.probed probe).member name args = o.member name args) ∧
    (∀ name : String, isHiddenMember name = false →
      isHiddenMember (String.ofList (Text.snakeCase name.toList)) = false) ∧
    (∀ (room : Room) (call : FrameRef → Caller) (receiver : Value) (w : World),
      w.hasAttributes receiver = true → ∀ (name : String) (args : List Value),
        (Run.member room call receiver name args).run w =
          ((Receiver.ofValue room call w receiver).member name args).run w) ∧
    ∀ name : String, name = "" ∨ name.toList.head? = some '_' →
      (∀ (room : Room) (call : FrameRef → Caller) (receiver : Value) (args : List Value),
        Run.member room call receiver name args = Run.fail (.access name .hidden)) ∧
      ∀ (o : Receiver) (args : List Value), o.member name args =
        Run.fail (.access name .hidden) := by
  refine ⟨fun S o o' h name args w hw => h.member name args hw, fun o probe name args => ?_,
    fun name => isHiddenMember_snakeCase, fun room call receiver w h name args =>
      ?_, fun name h => ?_⟩
  · exact Run.ext fun w => (o.agrees_probed probe).member name args trivial
  · exact Run.member_eq_receiver h name args
  · have hhidden := (isHiddenMember_eq_true_iff name).2 h
    exact ⟨fun room call receiver args => if_pos hhidden, fun o args => if_pos hhidden⟩

/-! ## Two records that differ in a hidden field -/

open scoped SampleHost

/-- A record of a tea that costs something. -/
def tea (cost : Int) : HostObject where
  kind := SampleHost.recordClass "Item" ["describe", "name_size"]
  fields := [("name", .str "Chai"), ("_cost", .int cost)]

/-- Two teas of one name. -/
def twoTeas : World := { World.empty with objects := #[tea 1, tea 2] }

section
variable {room : Room} {call : FrameRef → Caller} {w : World} {r : ObjectRef}

theorem run_serve {known : List Value} {request : HostRequest} {found : Except Stop (List Value)}
    (h : w.serve room known request = (found, w)) :
    (Run.make (·.serve room known request)).run w = .ok found w := by
  show (match w.serve room known request with | (a, w') => EStateM.Result.ok a w') = _
  rw [h]

theorem SampleHost.run_asking {α : Type} {known : List Value} {request : HostRequest}
    {vs : List Value} (h : w.serve room known request = (.ok vs, w))
    (next : List Known → HostCode α) :
    ((asking request next).run room call known).run w =
      ((next (Known.numbered known.length vs)).run room call (known ++ vs)).run w := by
  rw [asking, HostCode.run, EStateM.run_bind, run_serve h]

theorem SampleHost.run_asking_error {α : Type} {known : List Value}
    {request : HostRequest} {s : Stop} (h : w.serve room known request = (.error s, w))
    (next : List Known → HostCode α) : ((asking request next).run room call known).run w =
    .error s w := by
  rw [asking, HostCode.run, EStateM.run_bind, run_serve h]
  cases s <;> rfl

/-- What a tea has under a name that is not hidden. -/
def teaMember (r : ObjectRef) (name : String) : Option Member :=
  if name = "name_size" then some (.value (.int 4))
  else if name = "name" then some (.value (.str "Chai"))
  else if name = "describe" then some (.method (.object r) "describe")
  else none

variable {cost : Int} (hr : w.object r = tea cost)
include hr

theorem serve_members_tea (known : List Value) :
    w.serve room (.object r :: known) (.members (.known 0)) =
      (.ok [.str "describe", .str "name_size"], w) := by
  simp [World.serve, Handle.value, hr, tea, SampleHost.recordClass]

theorem serve_field_tea {name : String} (hname : name ≠ "_cost") (known : List Value) :
    w.serve room (.object r :: known) (.field (.known 0) name) =
      (.ok (if name = "name" then [.str "Chai"] else []), w) := by
  simp only [World.serve, Handle.value, List.getD_cons_zero, hr, tea, List.lookup_cons,
    List.lookup_nil]
  by_cases h : name = "name"
  · simp [h]
  · simp [beq_false_of_ne h, beq_false_of_ne hname, h]

theorem run_nameSize_tea :
    ((SampleHost.recordAttribute ⟨0, .object r⟩ "name_size").run room call [.object r]).run w =
      .ok (.value (.known 4),
        [.object r, .str "describe", .str "name_size", .str "Chai", .int 4]) w := by
  rw [SampleHost.recordAttribute, SampleHost.run_asking (serve_members_tea hr []) _]
  show EStateM.run (HostCode.run room call [.object r, .str "describe", .str "name_size"]
    (SampleHost.property ⟨0, .object r⟩ "name_size")) w = _
  have hsize : w.serve room [.object r, .str "describe", .str "name_size", .str "Chai"]
      (.size (.known 3)) = (.ok [.int 4], w) := rfl
  rw [SampleHost.property, SampleHost.run_asking (serve_field_tea hr (by decide) _) _]
  simp only [if_true]
  refine (SampleHost.run_asking hsize _).trans ?_
  unfold HostCode.run
  rfl

theorem run_memberOf_tea {name : String} (hname : isHiddenMember name = false) :
    (Run.memberOf room call (.object r) name).run w = .ok (teaMember r name) w := by
  have hcost : name ≠ "_cost" := by
    rintro rfl
    cases hname
  have hfind : Host.find name ⟨0, .object r⟩ = SampleHost.recordAttribute ⟨0, .object r⟩ name := rfl
  show (Run.foundBy room call (.object r) name _).run w = _
  rw [Run.foundBy, EStateM.run_bind, hfind]
  by_cases hsize : name = "name_size"
  · subst hsize
    rw [run_nameSize_tea hr]
    rfl
  have hproperty : ((Known.numbered 1 [.str "describe", .str "name_size"]).any
      (fun m => m.view = .str name) && SampleHost.isProperty name) = false := by
    by_cases hdescribe : name = "describe"
    · subst hdescribe
      rfl
    · simp [Known.numbered, Ne.symm hdescribe, Ne.symm hsize]
  rw [SampleHost.recordAttribute, SampleHost.run_asking (serve_members_tea hr []) _]
  dsimp only [List.length_cons, List.length_nil, Nat.zero_add, List.singleton_append]
  rw [hproperty, if_neg Bool.false_ne_true, SampleHost.run_asking (serve_field_tea hr hcost _) _]
  by_cases hname : name = "name"
  · subst hname
    rfl
  by_cases hdescribe : name = "describe"
  · subst hdescribe
    rfl
  · simp [teaMember, hsize, hname, hdescribe, Known.numbered, Ne.symm hdescribe, Ne.symm hsize]
    rfl

/-- A tea describes itself by its name. -/
theorem run_describe_tea (start : String) (known : List Value) :
    ((SampleHost.describe ⟨0, .object r⟩ start).value .unbounded call (.object r :: known)).run w =
      .ok (.str (start ++ ": Chai")) w := by
  have hname : Known.numbered (known.length + 1) [.str "Chai"] =
    [⟨known.length + 1, .str "Chai"⟩] := rfl
  have hvalue : Handle.value (.object r :: known ++ [.str "Chai"]) (.known (known.length + 1)) =
      .str "Chai" := by simp [Handle.value]
  have htext : w.serve .unbounded (.object r :: known ++ [.str "Chai"])
      (.text (.known (known.length + 1))) = (.ok [.str "Chai"], w) := by
    rw [World.serve, hvalue]
    rfl
  rw [HostCode.value, EStateM.run_bind, SampleHost.describe,
    SampleHost.run_asking (serve_field_tea hr (by decide) _) _]
  simp only [if_true, List.length_cons, hname]
  rw [SampleHost.run_asking htext]
  unfold HostCode.run
  simp [SampleHost.textOf, Known.numbered, Handle.value, Value.isPlain, String.append_assoc]

/-- What the method of a tea gives does not depend on what the tea costs. -/
theorem run_method_tea {r' : ObjectRef} {cost' : Int} (hr' : w.object r' = tea cost')
    (args : List Value) :
    (Host.callMethod .unbounded call (.object r) "describe" args).run w =
      (Host.callMethod .unbounded call (.object r') "describe" args).run w := by
  match args with
  | [] => exact (run_describe_tea hr "item" []).trans (run_describe_tea hr' "item" []).symm
  | [v] =>
    have hrun {r : ObjectRef} {cost : Int} (hr : w.object r = tea cost) :
        (Host.callMethod .unbounded call (.object r) "describe" [v]).run w =
          match w.plain .unbounded v with
          | .ok text => .ok (.str (text ++ ": Chai")) w
          | .error s => .error s w := by
      have hmethod : Host.callMethod .unbounded call (.object r) "describe" [v] =
          HostCode.value .unbounded call [.object r, v]
            (SampleHost.asking (.text (.known 1)) fun found =>
              SampleHost.describe ⟨0, .object r⟩ (SampleHost.textOf found)) := rfl
      have hserve : w.serve .unbounded [.object r, v] (.text (.known 1)) =
          ((w.plain .unbounded v).map fun text => [.str text], w) := rfl
      rw [hmethod, HostCode.value, EStateM.run_bind]
      cases hplain : w.plain .unbounded v with
      | error s =>
        rw [hplain] at hserve
        rw [SampleHost.run_asking_error hserve]
      | ok text =>
        rw [hplain] at hserve
        rw [SampleHost.run_asking hserve]
        exact run_describe_tea hr text [v, .str text]
    rw [hrun hr, hrun hr']
  | _ :: _ :: _ => rfl

end

/-- Nothing that is asked of the teas under names that are not hidden tells them apart. -/
theorem agrees_twoTeas (call : FrameRef → Caller) :
    (Receiver.ofValue .unbounded call twoTeas (.object ⟨0⟩)).Agrees (· = twoTeas)
      (Receiver.ofValue .unbounded call twoTeas (.object ⟨1⟩)) where
  typeName := rfl
  ask name hname := by
    rintro w rfl
    have hfirst : twoTeas.object ⟨0⟩ = tea 1 := rfl
    have hsecond : twoTeas.object ⟨1⟩ = tea 2 := rfl
    simp only [Receiver.ofValue, EStateM.run_bind, run_memberOf_tea hfirst hname,
      run_memberOf_tea hsecond hname, teaMember]
    split
    · exact .value _ _
    split
    · exact .value _ _
    split
    · exact .method (run_method_tea hfirst hsecond)
    · exact .missing rfl

/-- Nothing that a program asks of the teas tells them apart, and not even what hidden members there
are can be asked. -/
theorem hidden_members_unreachable_twoTeas :
    (∀ (name : String) (args : List Value),
      (Run.member .unbounded (fun _ _ _ => pure .nil) (.object ⟨0⟩) name args).run twoTeas =
        (Run.member .unbounded (fun _ _ _ => pure .nil) (.object ⟨1⟩) name args).run twoTeas) ∧
    (Run.member .unbounded (fun _ _ _ => pure .nil) (.object ⟨0⟩) "_cost" []).run twoTeas =
      .error (.ofFault (.access "_cost" .hidden)) twoTeas := by
  obtain ⟨halike, -, -, hvalue, hrefused⟩ := hidden_members_unreachable
  refine ⟨fun name args => ?_, ?_⟩
  · rw [hvalue .unbounded _ (.object ⟨0⟩) twoTeas rfl,
      hvalue .unbounded _ (.object ⟨1⟩) twoTeas rfl]
    exact halike _ _ _ (agrees_twoTeas _) name args twoTeas rfl
  · rw [(hrefused "_cost" (.inr rfl)).1]
    rfl

end TemplateLisp
