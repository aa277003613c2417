import TemplateLisp.Proofs.Invariants
import TemplateLisp.Proofs.Watches

/-!
# Invariants through host code

Host code works on values that it has been given. So whatever it asks for is one change of the world
or none, and what it is given may go into an object (`Invariant.Good.serve`). By induction along the
code it keeps every invariant, if it gives no object new contents or the rules allow that
(`Invariant.Agree.hostRun`). With two callers that agree it agrees with itself.

Walks through sequences are here too, because a step of a walk may run host code.
-/

namespace TemplateLisp

namespace Invariant

/-- The rules allow what host code does: all changes, or host code gives no object new contents. -/
class AllowsHost (I : Invariant) [H : Host] : Prop where
  allowed : I.mutation ∨ H.Additive

/-! ## What host code asks for -/

section
variable {I : Invariant} {w : World}

theorem Good.parts (h : I.Good w) {v : Value} (hv : I.Valid w v) : I.ValidAll w (w.parts v) := by
  cases v with
  | cell r => exact .cons (h.car hv) (.cons (h.cdr hv) validAll_nil)
  | vector r => exact h.vector hv
  | tuple r => exact h.tuple r
  | map r => exact (h.entries hv).values
  | closure r =>
    obtain ⟨hparams, hbody, henv⟩ := h.closure hv
    exact .cons hparams (.cons hbody (.cons henv validAll_nil))
  | object r => exact h.held (.object r) fun _ => id
  | generator r => exact h.held (.generator r) fun _ => id
  | env r =>
    refine .cons hv fun x hx => ?_
    obtain ⟨o, ho, rfl⟩ : ∃ o, (w.frame r).outer = some o ∧ .env o = x := by simpa using hx
    exact h.outer hv ho
  | _ => exact validAll_nil

theorem valid_handle {known : List Value} (hknown : I.ValidAll w known) (handle : Handle) :
    I.Valid w (handle.value known) := by
  cases handle with
  | known number =>
    rw [Handle.value, List.getD_eq_getElem?_getD]
    cases hfound : known[number]? with
    | none => exact valid_nil
    | some v => exact hknown v (List.mem_of_getElem? hfound)
  | plain v =>
    rw [Handle.value]
    split
    · exact valid_of_isPlain ‹_›
    · exact valid_nil

theorem validAll_handles {known : List Value} (hknown : I.ValidAll w known) (items : List Handle) :
    I.ValidAll w (items.map (·.value known)) := by
  intro v hv
  obtain ⟨handle, _, rfl⟩ := List.mem_map.1 hv
  exact valid_handle hknown handle

theorem validEntries_putKey {es : List (Value × Value)} {key value : Value} (w₀ : World)
    (hes : I.ValidEntries w es) (hkey : I.Valid w key) (hvalue : I.Valid w value) :
    I.ValidEntries w (w₀.putKey key value es) := by
  induction es with
  | nil =>
    intro e he
    cases List.mem_singleton.1 he
    exact ⟨hkey, hvalue⟩
  | cons e rest ih =>
    obtain ⟨k, v⟩ := e
    have hhead := hes (k, v) List.mem_cons_self
    have hrest : I.ValidEntries w rest := fun e he => hes e (List.mem_cons_of_mem _ he)
    unfold World.putKey
    split
    · intro e he
      rcases List.mem_cons.1 he with rfl | he
      · exact ⟨hhead.1, hvalue⟩
      · exact hrest e he
    · intro e he
      rcases List.mem_cons.1 he with rfl | he
      · exact hhead
      · exact ih hrest e he

theorem validEntries_entriesOf {known : List Value} (hknown : I.ValidAll w known)
    (entries : List (Handle × Handle)) : I.ValidEntries w
      (w.entriesOf (entries.map fun e => (e.1.value known, e.2.value known))) := by
  have hfold (es found : List (Value × Value)) (hes : I.ValidEntries w es)
      (hfound : I.ValidEntries w found) :
      I.ValidEntries w (es.foldl (fun es e => w.putKey e.1 e.2 es) found) := by
    induction es generalizing found with
    | nil => exact hfound
    | cons e es ih =>
      obtain ⟨hkey, hvalue⟩ := hes e List.mem_cons_self
      exact ih _ (fun e he => hes e (List.mem_cons_of_mem _ he))
        (validEntries_putKey w hfound hkey hvalue)
  refine hfold _ _ (fun e he => ?_) validEntries_nil
  obtain ⟨named, _, rfl⟩ := List.mem_map.1 (List.mem_filter.1 he).1
  exact ⟨valid_handle hknown _, valid_handle hknown _⟩

theorem validAll_fields {known : List Value} (hknown : I.ValidAll w known)
    (fields : List (String × Handle)) :
    I.ValidAll w ((fields.map fun f => (f.1, f.2.value known)).map (·.2)) := by
  intro v hv
  obtain ⟨e, he, rfl⟩ := List.mem_map.1 hv
  obtain ⟨f, _, rfl⟩ := List.mem_map.1 he
  exact valid_handle hknown f.2

theorem lookup_mem {l : List (String × Value)} {name : String} {v : Value}
    (h : l.lookup name = some v) : v ∈ l.map (·.2) := by
  obtain ⟨front, behind, rfl, -⟩ := List.lookup_eq_some_iff.1 h
  simp

theorem exists_of_map_eq_ok {ε α β : Type} {x : Except ε α} {f : α → β} {b : β}
    (h : x.map f = .ok b) : ∃ a, x = .ok a ∧ f a = b := by
  cases x with
  | ok a => exact ⟨a, rfl, Except.ok.inj h⟩
  | error s => cases h

/-- What host code has been told may go into an object. -/
def ValidTold (I : Invariant) (w : World) (told : Except Stop (List Value)) : Prop :=
  ∀ vs, told = .ok vs → I.ValidAll w vs

theorem ValidTold.ok {vs : List Value} (h : I.ValidAll w vs) : I.ValidTold w (.ok vs) := by
  intro us hus
  cases hus
  exact h

theorem ValidTold.nothing : I.ValidTold w (.ok []) := .ok validAll_nil

theorem ValidTold.single {v : Value} (hv : I.Valid w v) : I.ValidTold w (.ok [v]) :=
  .ok (.cons hv validAll_nil)

/-- One change, and what it makes is given. -/
theorem served_of_step {told : Except Stop (List Value)} {w' : World} (hstep : I.Step w w')
    (htold : I.ValidTold w' told) : I.Evolves w w' ∧ I.ValidTold w' told := ⟨.single hstep, htold⟩

/-- Nothing is changed. -/
theorem served_of_told {told : Except Stop (List Value)} (htold : I.ValidTold w told) :
    I.Evolves w w ∧ I.ValidTold w told := ⟨.refl, htold⟩

/-- What host code asks for keeps the invariant, and what it is given may go into an object. -/
theorem Good.serve (h : I.Good w) (room : Room) {known : List Value} (hknown : I.ValidAll w known)
    (request : HostRequest) (hmutation : request.isMutator = true → I.mutation) :
    I.Evolves w (w.serve room known request).2 ∧
      I.ValidTold (w.serve room known request).2 (w.serve room known request).1 := by
  have hhandle := valid_handle hknown
  cases request with
  | parts owner => exact served_of_told (.ok (h.parts (hhandle owner)))
  | field owner name =>
    simp only [World.serve]
    split
    · rename_i r _
      refine served_of_told (.ok fun v hv => ?_)
      exact h.held (.object r) (fun _ => id) v (lookup_mem (Option.mem_toList.1 hv))
    · exact served_of_told .nothing
  | members owner =>
    simp only [World.serve]
    split
    · refine served_of_told (.ok fun v hv => ?_)
      obtain ⟨s, _, rfl⟩ := List.mem_map.1 hv
      exact fun _ => trivial
    · exact served_of_told .nothing
  | size v =>
    refine served_of_told fun vs hvs => ?_
    obtain ⟨n, _, rfl⟩ := exists_of_map_eq_ok hvs
    exact .cons (fun _ => trivial) validAll_nil
  | text v =>
    refine served_of_told fun vs hvs => ?_
    obtain ⟨text, _, rfl⟩ := exists_of_map_eq_ok hvs
    exact .cons (fun _ => trivial) validAll_nil
  | typeName v => exact served_of_told (.single fun _ => trivial)
  | remembered => exact served_of_told (.ok (h.held .memory fun _ => id))
  | remember v => exact served_of_step (.remember (hhandle v)) .nothing
  | cons car cdr pos =>
    exact served_of_step (.cell (hhandle car) (hhandle cdr)) (.single (h.valid_addCell _))
  | vector items =>
    exact served_of_step (.vector (validAll_handles hknown items)) (.single (h.valid_addVector _))
  | tuple items =>
    refine served_of_step (.tuple (validAll_handles hknown items)) (.single fun _ => ?_)
    show w.tuples.size < (w.addTuple _).2.tuples.size
    simp [World.addTuple]
  | map entries =>
    exact served_of_step (.map (validEntries_entriesOf hknown entries)) (.single (h.valid_addMap _))
  | generator items =>
    exact served_of_step (.generator (validAll_handles hknown items)) (.single fun _ => trivial)
  | object kind fields =>
    exact served_of_step (.object (o := ⟨kind, _⟩) (validAll_fields hknown fields))
      (.single fun _ => trivial)
  | frame outer =>
    simp only [World.serve]
    split
    · rename_i r hr
      exact served_of_step (.frame validEntries_nil (hr ▸ hhandle outer))
        (.single (h.valid_addFrame _))
    · exact served_of_told .nothing
  | closure params body env name =>
    simp only [World.serve]
    split
    · rename_i r _ _ hr _
      split
      · exact served_of_step (.closure (hhandle params) (hhandle body) (hr ▸ hhandle env))
          (.single (h.valid_addClosure _))
      · exact served_of_told .nothing
    · exact served_of_told .nothing
  | setCar r v =>
    simp only [World.serve]
    split
    · exact served_of_step
        (.setCar (hmutation rfl) (‹r.value known = _› ▸ hhandle r) (hhandle v)) .nothing
    · exact served_of_told .nothing
  | setCdr r v =>
    simp only [World.serve]
    split
    · exact served_of_step
        (.setCdr (hmutation rfl) (‹r.value known = _› ▸ hhandle r) (hhandle v)) .nothing
    · exact served_of_told .nothing
  | setVector r items =>
    simp only [World.serve]
    split
    · exact served_of_step (.setVector (hmutation rfl) (‹r.value known = _› ▸ hhandle r)
        (validAll_handles hknown items)) .nothing
    · exact served_of_told .nothing
  | setEntries r entries =>
    simp only [World.serve]
    split
    · exact served_of_step (.setEntries (hmutation rfl) (‹r.value known = _› ▸ hhandle r)
        (validEntries_entriesOf hknown entries)) .nothing
    · exact served_of_told .nothing
  | setFields r fields =>
    simp only [World.serve]
    split
    · exact served_of_step (.fields (validAll_fields hknown fields)) .nothing
    · exact served_of_told .nothing
  | take r =>
    simp only [World.serve]
    split
    · rename_i g _
      split
      · rename_i v vs hleft
        have hv : I.Valid w v := h.held (.generator g) (fun _ => id) v (by
          rw [World.held, hleft]
          exact List.mem_cons_self)
        have hstep : I.Step w (w.setGenerator g vs) := .take hleft
        exact served_of_step hstep (.single (hv.mono hstep.grows))
      · exact served_of_told .nothing
    · exact served_of_told .nothing
  | define env name v =>
    simp only [World.serve]
    split
    · exact served_of_step (.define (‹env.value known = _› ▸ hhandle env) (hhandle v)) .nothing
    · exact served_of_told .nothing

end

/-! ## Code -/

namespace Agree

section
variable {I : Invariant} {w : World} {α : Type} {call call' : FrameRef → Caller}

/-- The invariant through a way of calling functions in an environment. -/
def CallersAgree (I : Invariant) (w : World) (call call' : FrameRef → Caller) : Prop :=
  ∀ ⦃w' : World⦄, w.Grows w' → ∀ ⦃env : FrameRef⦄ ⦃f : Value⦄ ⦃args : List Value⦄,
    I.Valid w' (.env env) → I.Valid w' f → I.ValidAll w' args →
    I.Agree w' I.Valid (call env f args) (call' env f args)

theorem CallersAgree.mono {w' : World} (h : CallersAgree I w call call') (hw : w.Grows w') :
    CallersAgree I w' call call' := fun _ hw' => h (hw.trans hw')

theorem callersAgree_noCalls : CallersAgree I w HostCode.noCalls HostCode.noCalls :=
  fun _ _ _ _ _ _ _ _ => crash _

theorem hostCallBack (hcall : CallersAgree I w call call') {env f : Value} {args : List Value}
    (henv : I.Valid w env) (hf : I.Valid w f) (hargs : I.ValidAll w args) :
    I.Agree w I.Valid (HostCode.callBack call env f args) (HostCode.callBack call' env f args) := by
  cases env with
  | env r => exact hcall (.refl w) henv hf hargs
  | _ => exact crash _

/-- Host code keeps the invariant. The values that it has been given at the end may go
into objects. -/
theorem hostRun (room : Room) (hcall : CallersAgree I w call call') {known : List Value}
    (hknown : I.ValidAll w known) {code : HostCode α} (hcode : I.mutation ∨ code.Additive) :
    I.Agree w (fun w r => I.ValidAll w r.2) (code.run room call known)
      (code.run room call' known) := by
  induction code generalizing w known with
  | answer a => exact pure hknown
  | raise s => exact throw s
  | ask request next ih =>
    have hnext (told : Except Stop (List Known)) : I.mutation ∨ (next told).Additive :=
      hcode.imp_right fun h => h.2 told
    refine of_good fun hw => ?_
    have hmutation (hrequest : request.isMutator = true) : I.mutation :=
      hcode.resolve_right fun h => by simp [h.1] at hrequest
    obtain ⟨hevolves, htold⟩ := hw.serve room hknown request hmutation
    rw [HostCode.run, HostCode.run]
    refine bind (P := I.ValidTold)
      (make (f := (·.serve room known request)) hevolves htold) fun told w' hgrows htold => ?_
    cases told with
    | ok vs => exact ih _ (hcall.mono hgrows) ((hknown.mono hgrows).append (htold vs rfl)) (hnext _)
    | error s =>
      cases s with
      | endless => exact throw _
      | _ => exact ih _ (hcall.mono hgrows) (hknown.mono hgrows) (hnext _)
  | call env f args next ih =>
    have hnext (told : Except Stop Known) : I.mutation ∨ (next told).Additive :=
      hcode.imp_right fun h => h told
    rw [HostCode.run, HostCode.run]
    refine bind (P := fun w (told : Except Stop Value) => ∀ v, told = .ok v → I.Valid w v) ?_
      fun told w' hgrows htold => ?_
    · refine tryCatch (map _ (hostCallBack hcall (valid_handle hknown env) (valid_handle hknown f)
        (validAll_handles hknown args)) fun v _ _ hv x hx => ?_) fun s w' _ => ?_
      · cases hx
        exact hv
      · split
        · exact throw _
        · exact pure fun v hv => by cases hv
    · cases told with
      | ok v =>
        exact ih _ (hcall.mono hgrows)
          ((hknown.mono hgrows).append (.cons (htold v rfl) validAll_nil)) (hnext _)
      | error s => exact ih _ (hcall.mono hgrows) (hknown.mono hgrows) (hnext _)

theorem hostValue (room : Room) (hcall : CallersAgree I w call call') {known : List Value}
    (hknown : I.ValidAll w known) {code : HostCode Handle} (hcode : I.mutation ∨ code.Additive) :
    I.Agree w I.Valid (code.value room call known) (code.value room call' known) :=
  bind (hostRun room hcall hknown hcode) fun r _ _ hr => pure (valid_handle hr r.1)

end

section
variable {I : Invariant} [H : Host] [I.AllowsHost] {w : World} {call call' : FrameRef → Caller}

/-- Every function of the host keeps the invariant. -/
theorem hostFunction (room : Room) (hcall : CallersAgree I w call call') {env : FrameRef}
    (henv : I.Valid w (.env env)) (f : HostFunctionRef) {args : List Value}
    (hargs : I.ValidAll w args) :
    I.Agree w I.Valid (Host.callFunction room call env f args)
      (Host.callFunction room call' env f args) := by
  have hallowed : I.mutation ∨ (H.function f).Additive :=
    (AllowsHost.allowed (I := I)).imp_right (·.function f)
  unfold Host.callFunction
  split
  · rename_i code hf
    rw [hf] at hallowed
    exact hostValue room hcall hargs (hallowed.imp_right fun h => h _)
  · rename_i code hf
    rw [hf] at hallowed
    exact hostValue room hcall (.cons henv hargs) (hallowed.imp_right fun h => h _ _)

theorem hostMethod (room : Room) (hcall : CallersAgree I w call call') {owner : Value}
    (howner : I.Valid w owner) (name : String) {args : List Value} (hargs : I.ValidAll w args) :
    I.Agree w I.Valid (Host.callMethod room call owner name args)
      (Host.callMethod room call' owner name args) :=
  hostValue room hcall (.cons howner hargs)
    ((AllowsHost.allowed (I := I)).imp_right (·.method name _ _))

theorem hostElement (room : Room) (r : ObjectRef) (index : Nat) :
    I.Keeps w (fun w found => ∀ v ∈ found, I.Valid w v) (Host.elementAt room r index) := by
  have hself : I.ValidAll w [.object r] := .cons (fun _ => trivial) validAll_nil
  refine bind (hostRun room callersAgree_noCalls hself
    ((AllowsHost.allowed (I := I)).imp_right (·.element _ index))) fun found _ _ hknown =>
      pure fun v hv => ?_
  obtain ⟨handle, _, rfl⟩ := Option.map_eq_some_iff.1 hv
  exact valid_handle hknown handle

theorem hostSize (room : Room) (r : ObjectRef) : I.Keeps w Anything (Host.sizeOf room r) := by
  have hself : I.ValidAll w [.object r] := .cons (fun _ => trivial) validAll_nil
  exact bind (hostRun room callersAgree_noCalls hself
    ((AllowsHost.allowed (I := I)).imp_right (·.size _))) fun _ _ _ _ => pure trivial

end

end Agree

/-! ## Sequences -/

/-- What is left in a walk through a sequence may go into an object. -/
def ValidCursor (I : Invariant) (w : World) : Cursor → Prop
  | .list whole behind => I.Valid w whole ∧ ∀ r ∈ behind, I.Valid w (.cell r)
  | .items rest => I.ValidAll w rest
  | .entries r _ _ => I.Valid w (.map r)
  | .vector r _ => I.Valid w (.vector r)
  | _ => True

section
variable {I : Invariant} {w : World}

theorem ValidCursor.mono {w' : World} {c : Cursor} (h : I.ValidCursor w c) (hw : w.Grows w') :
    I.ValidCursor w' c := by
  cases c with
  | list whole behind => exact ⟨h.1.mono hw, fun r hr => (h.2 r hr).mono hw⟩
  | items rest => exact ValidAll.mono h hw
  | entries r index size => exact Valid.mono h hw
  | vector r index => exact Valid.mono h hw
  | _ => trivial

theorem Good.cursor? (h : I.Good w) {v : Value} (hv : I.Valid w v) {c : Cursor}
    (hc : w.cursor? v = some c) : I.ValidCursor w c := by
  cases v with
  | nil => cases hc; exact validAll_nil
  | cell r => cases hc; exact ⟨hv, fun _ hr => nomatch hr⟩
  | vector r => cases hc; exact hv
  | tuple r => cases hc; exact h.tuple r
  | str s =>
    cases hc
    intro x hx
    obtain ⟨c, _, rfl⟩ := List.mem_map.1 hx
    exact fun _ => trivial
  | bytes bs =>
    cases hc
    intro x hx
    obtain ⟨b, _, rfl⟩ := List.mem_map.1 hx
    exact fun _ => trivial
  | map r => cases hc; exact hv
  | generator r => cases hc; trivial
  | object r =>
    simp only [World.cursor?] at hc
    split at hc
    · cases hc
      trivial
    · cases hc
  | _ => cases hc

theorem findKey?_mem {entries : List (Value × Value)} {key v : Value}
    (h : w.findKey? entries key = some v) : ∃ e ∈ entries, e.2 = v := by
  obtain ⟨e, he, rfl⟩ := Option.map_eq_some_iff.1 h
  exact ⟨e, List.mem_of_find?_eq_some he, rfl⟩

theorem Good.findKey? (h : I.Good w) {r : MapRef} (hr : I.Valid w (.map r)) {key v : Value}
    (hv : w.findKey? (w.entries r) key = some v) : I.Valid w v := by
  obtain ⟨e, he, rfl⟩ := findKey?_mem hv
  exact (h.entries hr e he).2

/-- What follows in a list that is walked may go into an object. -/
theorem Good.restOf (h : I.Good w) {whole : Value} {behind : Option CellRef}
    (hc : I.ValidCursor w (.list whole behind)) : I.Valid w (w.restOf whole behind) := by
  cases behind with
  | none => exact hc.1
  | some r => exact h.cdr (hc.2 r rfl)

end

namespace Agree

section
variable {I : Invariant} [Host] [I.AllowsHost] {w : World}

theorem next (room : Room) {c : Cursor} (hc : I.ValidCursor w c) :
    I.Keeps w (fun w found => ∀ p, found = some p → I.Valid w p.1 ∧ I.ValidCursor w p.2)
      (c.next room) := by
  match c, hc with
  | .list whole behind, hc =>
    refine look fun hw => ?_
    have hrest := hw.restOf hc
    cases hrestOf : w.restOf whole behind with
    | cell r =>
      rw [hrestOf] at hrest
      refine look fun hw => pure fun p hp => ?_
      cases hp
      exact ⟨hw.car hrest, hc.1, fun q hq => Option.mem_some.1 hq ▸ hrest⟩
    | nil => exact pure fun p hp => nomatch hp
    | _ => exact improperList room whole
  | .items [], _ => exact pure fun p hp => nomatch hp
  | .items (v :: vs), hc =>
    refine pure fun p hp => ?_
    cases hp
    exact ⟨ValidAll.head hc, ValidAll.tail hc⟩
  | .entries r index size, hc =>
    refine look fun hw => ite (fun _ => crash _) fun _ => ?_
    split
    · exact pure fun p hp => nomatch hp
    · rename_i k v he
      have hentry := hw.entries hc _ (List.mem_of_getElem? he)
      refine bind (list (.cons hentry.1 (.cons hentry.2 validAll_nil)))
        fun pair w' hgrows hpair => pure fun p hp => ?_
      cases hp
      exact ⟨hpair, Valid.mono hc hgrows⟩
  | .generator r, _ =>
    refine look fun hw => ?_
    cases hleft : w.generator r with
    | nil => exact pure fun p hp => nomatch hp
    | cons v vs =>
      have hv : I.Valid w v := hw.held (.generator r) (fun _ => id) v (by
        rw [World.held, hleft]
        exact List.mem_cons_self)
      refine bind (modify fun _ => .single (.take hleft)) fun _ w' hgrows _ => pure fun p hp => ?_
      cases hp
      exact ⟨hv.mono hgrows, trivial⟩
  | .vector r index, hc =>
    refine look fun hw => ?_
    split
    · exact pure fun p hp => nomatch hp
    · rename_i v hv
      refine pure fun p hp => ?_
      cases hp
      exact ⟨hw.vector hc v (List.mem_of_getElem? hv), hc⟩
  | .object r index, _ =>
    refine bind (hostElement room r index) fun found _ _ hfound => ?_
    cases found with
    | none => exact pure fun p hp => nomatch hp
    | some v =>
      refine pure fun p hp => ?_
      cases hp
      exact ⟨hfound v rfl, trivial⟩

section
variable {α : Type} {R : World → α → Prop} (hR : World.Persistent R)
include hR

theorem mapAt (room : Room) {f : Value → Run α} (fuel : Nat) {found : List α} {c : Cursor}
    (hf : ∀ v w', w.Grows w' → I.Valid w' v → I.Keeps w' R (f v))
    (hfound : ∀ a ∈ found, R w a) (hc : I.ValidCursor w c) :
    I.Keeps w (fun w as => ∀ a ∈ as, R w a) (c.mapAt room f fuel found) := by
  induction fuel generalizing w found c with
  | zero => exact throw _
  | succ n ih =>
    refine bind (next room hc) fun found' w₁ h₁ hnext => ?_
    match found', hnext with
    | none, _ => exact pure fun a ha => hR h₁ (hfound a (List.mem_reverse.1 ha))
    | some (v, c), hnext =>
      obtain ⟨hv, hc'⟩ := hnext (v, c) rfl
      refine bind (hf v w₁ h₁ hv) fun a w₂ h₂ ha => ?_
      refine ih (fun v w' hw' => hf v w' ((h₁.trans h₂).trans hw')) (fun b hb => ?_) (hc'.mono h₂)
      rcases List.mem_cons.1 hb with rfl | hb
      · exact ha
      · exact hR (h₁.trans h₂) (hfound b hb)

theorem mapCursor (room : Room) {f : Value → Run α} {c : Cursor}
    (hf : ∀ v w', w.Grows w' → I.Valid w' v → I.Keeps w' R (f v)) (hc : I.ValidCursor w c) :
    I.Keeps w (fun w as => ∀ a ∈ as, R w a) (c.map room f) :=
  look fun _ => mapAt hR room _ hf (by simp) hc

end

theorem toList (room : Room) {c : Cursor} (hc : I.ValidCursor w c) :
    I.Keeps w I.ValidAll (c.toList room) :=
  mapCursor persistent_valid room (fun _ _ _ hv => pure hv) hc

omit [Host] [I.AllowsHost] in
theorem cursor (function : String) (index : Nat) {v : Value} (hv : I.Valid w v) :
    I.Keeps w I.ValidCursor (Run.cursor function index v) := by
  refine look fun hw => ?_
  cases hc : w.cursor? v with
  | some c => exact pure (hw.cursor? hv hc)
  | none => exact wrongArgument _ _ _ v

theorem items (room : Room) (function : String) (index : Nat) {v : Value} (hv : I.Valid w v) :
    I.Keeps w I.ValidAll (Run.items room function index v) := by
  unfold Run.items
  split
  · exact bind (spine hv) fun _ _ _ hs => ite (fun _ => pure hs.1) fun _ => wrongArgument _ _ _ _
  · refine bind (cursor function index hv) fun c w' _ hc =>
      tryCatch (toList room hc) fun s w'' _ => ?_
    split
    · exact ite (fun _ => wrongArgument _ _ _ _) fun _ => throw _
    · exact throw _

omit [Host] [I.AllowsHost] in
/-- What a map has under one of two keys, or else the given value. -/
theorem entryOr {r : MapRef} (hr : I.Valid w (.map r)) (k k' : Value) {absent : Value}
    (habsent : I.Valid w absent) :
    I.Keeps w I.Valid (do
      let found ← Run.look fun w => (w.findKey? (w.entries r) k).or (w.findKey? (w.entries r) k')
      return found.getD absent) := by
  refine look fun hw => ?_
  cases hk : w.findKey? (w.entries r) k with
  | some v => exact pure (hw.findKey? hr hk)
  | none =>
    cases hk' : w.findKey? (w.entries r) k' with
    | some v => exact pure (hw.findKey? hr hk')
    | none => exact pure habsent

omit [Host] [I.AllowsHost] in
theorem ofKeyword (s : Symbol) {args : List Value} (hargs : I.ValidAll w args) :
    I.Keeps w I.Valid (Maps.ofKeyword s args) := by
  unfold Maps.ofKeyword
  dsimp only
  split
  · split
    · exact pure valid_nil
    · exact entryOr hargs.head _ _ valid_nil
    · exact wrongArgument _ _ _ _
  · split
    · exact pure hargs.tail.head
    · exact entryOr hargs.head _ _ hargs.tail.head
    · exact wrongArgument _ _ _ _
  · exact fail _

end

end Agree

end Invariant

end TemplateLisp
