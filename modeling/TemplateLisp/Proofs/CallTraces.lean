import TemplateLisp.Proofs.Elements
import TemplateLisp.Proofs.Outcomes
import TemplateLisp.Proofs.Seclusion

/-!
# Asking a function about elements

A function that goes through a sequence may ask another one about each element and do things of its
own in between. `Asks` records the calls of the other function, in order and each from the world
that it is made in, with their answers and with how it ends: all elements have been asked about, an
answer was the one that was looked for, a call has stopped, or a call has no end.

The other function may do whatever it wants. What has to be asked of it for the sake of the first
one is asked in the worlds that its calls on the elements can come to (`Proceeds`). A function that
does nothing but tell elements apart (`Tells`) comes to no other worlds than one comes to without
calling it.

The values that it is called with are known (`Value.Known`): they lead to nothing that the first
function has made for itself.
-/

namespace TemplateLisp

/-- From `w`, the call from a frame comes to the outcome where nesting is unbounded. -/
def Interpreter.CallsFrom [Host] (i : Interpreter) (env : FrameRef) (w : World) (f : Value)
    (args : List Value) (r : EStateM.Result Stop World Value) : Prop :=
  Invocation.ComesTo ⟨f, args, .unbounded, w⟩ i env r

/-- From `w`, the call from the root comes to the outcome where nesting is unbounded. -/
abbrev Interpreter.Calls [Host] (i : Interpreter) (w : World) (f : Value) (args : List Value)
    (r : EStateM.Result Stop World Value) : Prop := i.CallsFrom i.env w f args r

/-- A stop of a call as a built-in function reports it. -/
def Stop.reportedBy (name : String) : Stop → Stop
  | .crash f => .ofFault (.host name f)
  | s => s

theorem Stop.reportedBy_reportedBy (name name' : String) (s : Stop) :
    (s.reportedBy name).reportedBy name' = s.reportedBy name := by
  cases s <;> rfl

theorem Run.reported_error {α : Type} (name : String) (s : Stop) (w : World) :
    Run.reported name (.error s w : EStateM.Result Stop World α) =
      .error (s.reportedBy name) w := by
  cases s <;> rfl

/-- How asking about elements ends. -/
inductive Ending where
  | through (w : World)
  | found (a : Value) (w : World)
  | stopped (s : Stop) (w : World)
  | endless

/-- The outcome of a search, if it has one. -/
def Ending.outcome? (result : Option Value → Value) :
    Ending → Option (EStateM.Result Stop World Value)
  | through w => some (.ok (result none) w)
  | found a w => some (.ok (result (some a)) w)
  | stopped s w => some (.error s w)
  | endless => none

/-- How asking ends where the stops of calls are reported. -/
def Ending.reported (report : Stop → Stop) : Ending → Ending
  | stopped s w => stopped (report s) w
  | e => e

section
variable [Host] (i : Interpreter) (f : Value) (start : World)

/-- From `w`, the function is asked about the elements in order, up to the first answer that is
wanted. -/
inductive Asks (wanted : Value → Bool) : World → List Element → List Value → Ending → Prop where
  | through {w w' : World} (aside : start.Aside w w') : Asks wanted w [] [] (.through w')
  | found {w w₁ w₂ w' : World} {el : Element} {els : List Element} {x a : Value}
      (aside : start.Aside w w₁) (sound : w₁.Sound) (shows : World.Shows start w₁ el x)
      (answer : i.Calls w₁ f [x] (.ok a w₂)) (hit : wanted a = true) (behind : start.Aside w₂ w') :
      Asks wanted w (el :: els) [a] (.found a w')
  | next {w w₁ w₂ : World} {el : Element} {els : List Element} {x a : Value} {answers : List Value}
      {e : Ending} (aside : start.Aside w w₁) (sound : w₁.Sound) (shows : World.Shows start w₁ el x)
      (answer : i.Calls w₁ f [x] (.ok a w₂)) (miss : wanted a = false)
      (rest : Asks wanted w₂ els answers e) : Asks wanted w (el :: els) (a :: answers) e
  | stopped {w w₁ w₂ : World} {el : Element} {els : List Element} {x : Value} {s : Stop}
      (aside : start.Aside w w₁) (sound : w₁.Sound) (shows : World.Shows start w₁ el x)
      (stop : i.Calls w₁ f [x] (.error s w₂)) : Asks wanted w (el :: els) [] (.stopped s w₂)
  | endless {w w₁ : World} {el : Element} {els : List Element} {x : Value}
    (aside : start.Aside w w₁)
      (sound : w₁.Sound) (shows : World.Shows start w₁ el x) (endless : ∀ r, ¬ i.Calls w₁ f [x] r) :
      Asks wanted w (el :: els) [] .endless

/-- The worlds that calls on the elements can come to, with the elements that are still to come. The
elements may be taken all at once, and then it is these values that are still to come. -/
inductive Proceeds (all : List Element) : List Element → World → Prop where
  | start : Proceeds all all start
  | aside {els : List Element} {w w' : World} (before : Proceeds all els w)
    (aside : start.Aside w w')
      (sound : w'.Sound) : Proceeds all els w'
  | taken {els : List Element} {w : World} {xs : List Value} (before : Proceeds all els w)
      (shows : World.ShowsAll start w els xs) : Proceeds all (xs.map .value) w
  | call {el : Element} {els : List Element} {w w' : World} {x a : Value}
      (before : Proceeds all (el :: els) w) (shows : World.Shows start w el x)
      (answer : i.Calls w f [x] (.ok a w')) : Proceeds all els w'

/-- In the world the function may be asked about the value, which shows the first element that is
still to come. -/
def Due (all pending : List Element) (w : World) (x : Value) : Prop :=
  ∃ el, Proceeds i f start all (el :: pending) w ∧ World.Shows start w el x

/-- The worlds that calls on the elements can come to. -/
def Reached (all : List Element) (w : World) : Prop := ∃ els, Proceeds i f start all els w

/-- The function tells elements apart and does nothing else: called on a value that shows one of the
elements, from whatever frame, it gives the answer that the element has, and it makes objects at
most. -/
def Tells (els : List Element) (g : Element → Bool) : Prop :=
  ∀ w el x, el ∈ els → start.Aside start w → w.Sound → World.Shows start w el x →
    ∃ a w', (∀ env, i.CallsFrom env w f [x] (.ok a w')) ∧ a.isTruthy = g el ∧ start.Aside w w'

end

/-! ## Values that are known -/

/-- The value was there in the world `start`, or it is a pair that has been made since. -/
def Value.Known (start w : World) (v : Value) : Prop :=
  start.InRange v ∨ ∃ r : CellRef, v = .cell r ∧ r.index < w.cells.size

/-- What stands at the place is known. An entry is shown as a new list. -/
def Element.Known (start w : World) : Element → Prop
  | .value v => v.Known start w
  | .entry _ _ => True

/-- A walk through what is known. -/
def Cursor.Known (start w : World) : Cursor → Prop
  | .list whole behind => whole.Known start w ∧ ∀ r ∈ behind, r.index < w.cells.size
  | .items rest => ∀ v ∈ rest, v.Known start w
  | .entries r _ _ => start.InRange (.map r)
  | .vector r _ => start.InRange (.vector r)
  | _ => True

section
variable {start w w' : World} {v : Value} {el : Element} {c : Cursor} {s : Reserve}

theorem Value.Known.mono (h : v.Known start w) (hw : w.Grows w') : v.Known start w' :=
  h.imp_right fun ⟨r, hv, hr⟩ => ⟨r, hv, Nat.lt_of_lt_of_le hr hw.cells⟩

/-- What is known leads to nothing that is kept for oneself. -/
theorem Value.Known.admits (h : v.Known start w) (hgrows : start.Grows w) (hnewer : s.Newer start)
    (hcells : ∀ r, ¬ s.cells r) : s.Admits w v := by
  rcases h with hold | ⟨r, rfl, hr⟩
  · exact hnewer.admits hgrows hold
  · exact ⟨hr, hcells r⟩

theorem Value.Known.inRange (h : v.Known start w) (hgrows : start.Grows w) : w.InRange v :=
  (h.admits hgrows (.none start) fun _ => id).inRange

theorem Element.Known.mono (h : el.Known start w) (hw : w.Grows w') : el.Known start w' := by
  cases el with
  | value => exact Value.Known.mono h hw
  | entry => trivial

theorem Cursor.Known.mono (h : c.Known start w) (hw : w.Grows w') : c.Known start w' := by
  cases c with
  | list whole behind => exact ⟨h.1.mono hw, fun r hr => Nat.lt_of_lt_of_le (h.2 r hr) hw.cells⟩
  | items rest => exact fun v hv => (h v hv).mono hw
  | _ => exact h

/-- The walk leads on in what is known. -/
theorem Cursor.Known.next [Host] (h : c.Known start w) (hw : w.Sound) (hgrows : start.Grows w)
    {room : Room} {x : Value} {c' : Cursor} (hnext : (c.next room).run w = .ok (some (x, c')) w')
    (hextends : w.Extends w') : c'.Known start w' := by
  refine Cursor.Known.mono (w := w) ?_ hextends.toGrows
  cases c with
  | list whole behind =>
    rw [Cursor.next, Run.run_look_bind] at hnext
    have hrest : w.InRange (w.restOf whole behind) := by
      cases behind with
      | none => exact h.1.inRange hgrows
      | some q => exact hw.held (.cell q) _ (List.mem_cons_of_mem _ List.mem_cons_self)
    cases hrestOf : w.restOf whole behind with
    | cell r =>
      rw [hrestOf] at hnext hrest
      cases hnext
      exact ⟨h.1, fun q hq => Option.mem_some.1 hq ▸ hrest⟩
    | nil =>
      rw [hrestOf] at hnext
      cases hnext
    | _ =>
      rw [hrestOf] at hnext
      obtain ⟨text, w₁, -, hfail⟩ := Run.bind_eq_ok_iff.1 hnext
      cases hfail
  | items rest =>
    cases rest with
    | nil => cases hnext
    | cons v vs =>
      cases hnext
      exact fun u hu => h u (List.mem_cons_of_mem _ hu)
  | entries r index size =>
    rw [Cursor.next, Run.run_look_bind] at hnext
    split at hnext
    · cases hnext
    · split at hnext
      · cases hnext
      · cases hnext
        exact h
  | generator r =>
    rw [Cursor.next, Run.run_look_bind] at hnext
    split at hnext
    · cases hnext
    · cases hnext
      trivial
  | vector r index =>
    rw [Cursor.next, Run.run_look_bind] at hnext
    split at hnext
    · cases hnext
    · cases hnext
      exact h
  | object r index =>
    obtain ⟨found, w₁, -, hfound⟩ := Run.bind_eq_ok_iff.1 hnext
    cases found with
    | none => cases hfound
    | some v =>
      cases hfound
      trivial

/-- The next element does not lead to what is kept for oneself, and nothing does that is made for
it. -/
theorem Cursor.Known.next_safe [Host] (h : c.Known start w) (hgrows : start.Grows w)
    (hnewer : s.Newer start) (hcells : ∀ r, ¬ s.cells r) (hs : s.Safe w) {room : Room}
    {found : Option (Value × Cursor)} (hnext : (c.next room).run w = .ok found w') : s.Safe w' ∧
    ∀ p, found = some p → s.Admits w' p.1 := by
  have hvalid : (Invariant.untouched s w).ValidCursor w c := by
    cases c with
    | list whole behind =>
      exact ⟨fun _ => h.1.admits hgrows hnewer hcells, fun r hr _ => ⟨h.2 r hr, hcells r⟩⟩
    | items rest => exact fun v hv _ => (h v hv).admits hgrows hnewer hcells
    | entries | vector => exact fun _ => hnewer.admits hgrows h
    | _ => trivial
  have hends := (Invariant.Agree.next room hvalid hs.good).2
  rw [hnext] at hends
  exact ⟨⟨hends.2.1.sound trivial, hends.2.1.holds.1⟩, fun p hp => (hends.2.2 p hp).1 trivial⟩

end

namespace World

variable {start w old : World} {s x : Value} {el : Element} {els : List Element} {xs : List Value}

/-- The elements of a sequence that exists are known. -/
theorem contents?_known (h : w.contents? s = some els) (hw : w.Sound) (hs : w.InRange s) :
    ∀ el ∈ els, el.Known w w := by
  cases s with
  | nil =>
    cases h
    exact fun _ h => nomatch h
  | cell r =>
    obtain ⟨xs, rfl, hlist⟩ := listOf_of_contents? h
    exact List.forall_mem_map.2 fun x hx => .inl (hlist.inRange hw hs x hx)
  | vector r =>
    cases h
    exact List.forall_mem_map.2 fun x hx => .inl (hw.held (.vector r) x hx)
  | tuple r =>
    cases h
    exact List.forall_mem_map.2 fun x hx => .inl (hw.held (.tuple r) x hx)
  | str t =>
    cases h
    exact List.forall_mem_map.2 fun _ _ => .inl trivial
  | bytes bs =>
    cases h
    exact List.forall_mem_map.2 fun _ _ => .inl trivial
  | map r =>
    cases h
    exact List.forall_mem_map.2 fun _ _ => trivial
  | _ => cases h

/-- A walk through a sequence that was there is one through what is known. -/
theorem cursor?_known (hw : start.Sound) (hs : start.InRange s)
    (hkeeps : start.Keeps w) {c : Cursor} (hcontents : start.contents? s = some els)
    (hc : w.cursor? s = some c) : c.Known start w := by
  cases s with
  | nil =>
    cases hc
    exact fun _ h => nomatch h
  | cell r =>
    cases hc
    exact ⟨.inl hs, fun _ h => nomatch h⟩
  | vector r | map r =>
    cases hc
    exact hs
  | tuple r =>
    cases hc
    show ∀ v ∈ w.tuple r, v.Known start w
    rw [hkeeps.tuple r hs]
    exact fun v hv => .inl (hw.held (.tuple r) v hv)
  | str t =>
    cases hc
    exact List.forall_mem_map.2 fun _ _ => .inl trivial
  | bytes bs =>
    cases hc
    exact List.forall_mem_map.2 fun _ _ => .inl trivial
  | _ => cases hcontents

theorem Shows.known (h : Shows start w el x) (hel : el.Known start w) : x.Known start w := by
  cases el with
  | value v =>
    obtain rfl : x = v := h
    exact hel
  | entry k v =>
    obtain ⟨hlist, hnew⟩ := h
    obtain ⟨r, rfl, -, -⟩ := hlist.cons_inv
    cases hnew with
    | pair _ hr _ => exact .inr ⟨r, rfl, hr⟩

theorem ShowsAll.known (h : ShowsAll start w els xs) (hels : ∀ el ∈ els, el.Known start w) :
    ∀ x ∈ xs, x.Known start w := by
  induction h with
  | nil => exact fun _ h => nomatch h
  | cons hx _ ih =>
    obtain ⟨hel, hels⟩ := List.forall_mem_cons.1 hels
    exact List.forall_mem_cons.2 ⟨hx.known hel, ih hels⟩

end World

/-! ## Runs that make one call -/

/-- The run calls the function on the value once, from the world `w₁`, and does things of its own
before and behind. If the call has a result then so has the run; if the call stops then the run
stops as it reports; and if the call has no end then neither has the run. -/
structure Inquires [Host] {β : Type} (i : Interpreter) (f x : Value) (start w w₁ : World)
    (y : Nat → Run β) (report : Stop → Stop) (done : Value → β → World → Prop) : Prop where
  aside : start.Aside w w₁
  sound : w₁.Sound
  answered : ∀ a w₂, i.Calls w₁ f [x] (.ok a w₂) →
    ∃ b w₃, Run.Reaches y w (.ok b w₃) ∧ start.Aside w₂ w₃ ∧ done a b w₃
  stopped : ∀ s w₂, i.Calls w₁ f [x] (.error s w₂) → Run.Reaches y w (.error (report s) w₂)
  endless : (∀ r, ¬ i.Calls w₁ f [x] r) → ∀ r, ¬ Run.Reaches y w r

theorem Interpreter.callsFrom_iff [Host] {i : Interpreter} {site : Site} (h : site.Of i)
    (hroom : site.room = .unbounded) {f : Value} {args : List Value} {w : World}
    {r : EStateM.Result Stop World Value} :
    i.CallsFrom site.env w f args r ↔ Run.Reaches (fun n => call n site f args) w r := by
  obtain ⟨env, macros, ambient, room⟩ := site
  obtain rfl : room = .unbounded := hroom
  exact (h.invocation_comesTo ⟨f, args, .unbounded, w⟩).symm

/-- A call with known values leaves alone what is kept for oneself. -/
theorem Interpreter.Calls.kept [Host] {i : Interpreter} {s : Reserve}
    {start w : World} {f x : Value} {r : EStateM.Result Stop World Value}
    (hcall : i.Calls w f [x] r) (hs : s.Safe w) (hgrows : start.Grows w) (hnewer : s.Newer start)
    (hcells : ∀ r, ¬ s.cells r) (hroot : i.env.index < start.frames.size) (hf : start.InRange f)
    (hx : x.Known start w) :
    s.Kept w (Run.leaves r) ∧ ∀ a w', r = .ok a w' → s.Admits w' a :=
  Reserve.Safe.afterCall (c := ⟨f, [x], .unbounded, w⟩) hs
    (hnewer.admits hgrows (v := .env i.env) hroot)
    (hnewer.admits hgrows hf) (List.forall_mem_singleton.2 (hx.admits hgrows hnewer hcells)) hcall

/-- A call has a value, or it stops, or it has no end. -/
theorem Interpreter.calls_cases [Host] (i : Interpreter) (w : World) (f : Value)
    (args : List Value) : (∃ a w', i.Calls w f args (.ok a w')) ∨
    (∃ s w', i.Calls w f args (.error s w')) ∨
      ∀ r, ¬ i.Calls w f args r := by
  by_cases hends : ∃ r, i.Calls w f args r
  · obtain ⟨r, hcall⟩ := hends
    cases r with
    | ok a w' => exact .inl ⟨a, w', hcall⟩
    | error s w' => exact .inr (.inl ⟨s, w', hcall⟩)
  · exact .inr (.inr fun r hr => hends ⟨r, hr⟩)

namespace Inquires

section
variable [Host] {β γ : Type} {i : Interpreter} {f x : Value} {start w w' w₁ : World}
  {y y' : Nat → Run β}
  {report : Stop → Stop} {done : Value → β → World → Prop}

/-- The call itself, from whatever frame as long as that makes no difference. -/
theorem call {site : Site} (hcalls : ∀ r, i.Calls w f [x] r ↔
    Run.Reaches (fun n => call n site f [x]) w r)
    (hsound : w.Sound) : Inquires i f x start w w (fun n => TemplateLisp.call n site f [x]) id
      fun a b w' => b = a ∧ i.Calls w f [x] (.ok a w') where
  aside := .refl start w
  sound := hsound
  answered a w₂ hcall := ⟨a, w₂, (hcalls _).1 hcall, .refl start w₂, rfl, hcall⟩
  stopped _ _ := (hcalls _).1
  endless hendless r hr := hendless r ((hcalls r).2 hr)

theorem imp {done' : Value → β → World → Prop} (h : Inquires i f x start w w₁ y report done)
    (hdone : ∀ a b w', done a b w' → done' a b w') : Inquires i f x start w w₁ y report done' where
  aside := h.aside
  sound := h.sound
  answered a w₂ hcall := by
    obtain ⟨b, w₃, hy, haside, hb⟩ := h.answered a w₂ hcall
    exact ⟨b, w₃, hy, haside, hdone a b w₃ hb⟩
  stopped := h.stopped
  endless := h.endless

/-- What is done before makes no other calls. -/
theorem before (h : Inquires i f x start w' w₁ y' report done) (haside : start.Aside w w')
    (hy : Run.Matches y w y' w') : Inquires i f x start w w₁ y report done where
  aside := haside.trans h.aside
  sound := h.sound
  answered a w₂ hcall := by
    obtain ⟨b, w₃, hy₃, hdone⟩ := h.answered a w₂ hcall
    exact ⟨b, w₃, (hy _).2 hy₃, hdone⟩
  stopped s w₂ hcall := (hy _).2 (h.stopped s w₂ hcall)
  endless hendless r hr := h.endless hendless r ((hy r).1 hr)

/-- What is done behind makes no other calls. -/
theorem bind (h : Inquires i f x start w w₁ y report done) (hy : Run.Rising y)
    {behind : Nat → β → Run γ} {done' : Value → γ → World → Prop}
    (hbehind : ∀ a b w₂, done a b w₂ →
      ∃ c w₃, Run.Reaches (fun n => behind n b) w₂ (.ok c w₃) ∧ start.Aside w₂ w₃ ∧ done' a c w₃) :
    Inquires i f x start w w₁ (fun n => y n >>= behind n) report done' where
  aside := h.aside
  sound := h.sound
  answered a w₂ hcall := by
    obtain ⟨b, w₃, hy₃, haside, hdone⟩ := h.answered a w₂ hcall
    obtain ⟨c, w₄, hend, haside', hdone'⟩ := hbehind a b w₃ hdone
    exact ⟨c, w₄, hy₃.bind hy hend, haside.trans haside', hdone'⟩
  stopped s w₂ hcall := (h.stopped s w₂ hcall).bind_error hy _
  endless hendless := Run.not_reaches_bind (h.endless hendless) hy _

/-- What is done with a value afterwards makes no other calls. -/
theorem discard {done : Value → World → Prop}
    (h : Inquires i f x start w w₁ y report fun a _ w' => done a w') (hy : Run.Rising y) :
    Inquires i f x start w w₁ (fun n => y n >>= fun _ => pure ()) report fun a _ w' => done a w' :=
  h.bind hy fun _ _ w₂ hdone => ⟨(), w₂, Run.reaches_pure () w₂, .refl start w₂, hdone⟩

/-- A built-in function reports failures of the host as errors of its own. -/
theorem reported (h : Inquires i f x start w w₁ y report done) (hy : Run.Rising y) (name : String) :
    Inquires i f x start w w₁ (fun n => Run.orHostFault name (y n)) (fun s =>
      (report s).reportedBy name)
      done where
  aside := h.aside
  sound := h.sound
  answered a w₂ hcall := by
    obtain ⟨b, w₃, hy₃, hdone⟩ := h.answered a w₂ hcall
    exact ⟨b, w₃, (Run.reaches_orHostFault hy name).2 ⟨_, hy₃, rfl⟩, hdone⟩
  stopped s w₂ hcall :=
    (Run.reaches_orHostFault hy name).2
      ⟨_, h.stopped s w₂ hcall, (Run.reported_error name _ w₂).symm⟩
  endless hendless r hr := by
    obtain ⟨r', hr', -⟩ := (Run.reaches_orHostFault hy name).1 hr
    exact h.endless hendless r' hr'

/-- A run that comes to what a call and something behind it come to makes one call. -/
theorem of_matches {site : Site}
    (hcalls : ∀ r, i.Calls w₁ f [x] r ↔ Run.Reaches (fun n => TemplateLisp.call n site f [x]) w₁ r)
    {behind : Nat → Value → Run β} (haside : start.Aside w w₁) (hsound : w₁.Sound)
    (hmatches : Run.Matches y w (fun n => TemplateLisp.call n site f [x] >>= behind n) w₁)
    (hdone : ∀ a w₂, i.Calls w₁ f [x] (.ok a w₂) →
      ∃ b w₃, Run.Reaches (fun n => behind n a) w₂ (.ok b w₃) ∧ start.Aside w₂ w₃ ∧ done a b w₃) :
    Inquires i f x start w w₁ y id done := by
  refine .before (.bind (.call hcalls hsound) (Run.rising_call site f [x]) ?_) haside hmatches
  rintro a _ w₂ ⟨rfl, hcall⟩
  exact hdone _ w₂ hcall

end

end Inquires

/-! ## Records of calls -/

section
variable [Host] {i : Interpreter} {f a x : Value} {start w w' : World} {els pending : List Element}

theorem Due.aside (h : Due i f start els pending w x) (hw : start.Aside w w') (hsound : w'.Sound) :
    Due i f start els pending w' x := by
  obtain ⟨el, hproceeds, hshows⟩ := h
  exact ⟨el, hproceeds.aside hw hsound, hshows.keeps hw.toKeeps⟩

theorem Due.answered (h : Due i f start els pending w x) (hcall : i.Calls w f [x] (.ok a w')) :
    Proceeds i f start els pending w' := by
  obtain ⟨el, hproceeds, hshows⟩ := h
  exact hproceeds.call hshows hcall

theorem Due.reached (h : Due i f start els pending w x) : Reached i f start els w := by
  obtain ⟨el, hproceeds, -⟩ := h
  exact ⟨_, hproceeds⟩

theorem Reached.aside (h : Reached i f start els w) (hw : start.Aside w w') (hsound : w'.Sound) :
    Reached i f start els w' := by
  obtain ⟨pending, hproceeds⟩ := h
  exact ⟨pending, hproceeds.aside hw hsound⟩

theorem Asks.before {wanted : Value → Bool} {answers : List Value} {e : Ending}
    (h : Asks i f start wanted w' els answers e) (hw : start.Aside w w') :
    Asks i f start wanted w els answers e := by
  cases h with
  | through aside => exact .through (hw.trans aside)
  | found aside sound shows answer hit behind =>
    exact .found (hw.trans aside) sound shows answer hit behind
  | next aside sound shows answer miss rest =>
    exact .next (hw.trans aside) sound shows answer miss rest
  | stopped aside sound shows stop => exact .stopped (hw.trans aside) sound shows stop
  | endless aside sound shows endless => exact .endless (hw.trans aside) sound shows endless

/-- What is done once all have been asked about makes no calls. -/
theorem Asks.behind {wanted : Value → Bool} {answers : List Value} {w'' : World}
    (h : Asks i f start wanted w els answers (.through w')) (hw : start.Aside w' w'') :
    Asks i f start wanted w els answers (.through w'') := by
  generalize he : Ending.through w' = e at h
  induction h with
  | through aside =>
    cases he
    exact .through (aside.trans hw)
  | next aside sound shows answer miss _ ih => exact .next aside sound shows answer miss (ih he)
  | _ => cases he

/-- If the function is known to answer when it is asked about the first element, then that is how
asking begins. -/
theorem Asks.first {wanted : Value → Bool} {P : Value → Prop} {el : Element} {answers : List Value}
    {e : Ending} (h : Asks i f start wanted w (el :: els) answers e)
    (hcall : ∀ w₁ x, start.Aside w w₁ → w₁.Sound → World.Shows start w₁ el x →
      ∃ a w₂, i.Calls w₁ f [x] (.ok a w₂) ∧ P a ∧ start.Aside w₁ w₂) :
    ∃ a w₂, P a ∧ start.Aside w w₂ ∧
      ((wanted a = true ∧ ∃ w', e = .found a w') ∨
        wanted a = false ∧ ∃ rest, answers = a :: rest ∧ Asks i f start wanted w₂ els rest e) := by
  cases h with
  | found aside sound shows answer hit behind =>
    obtain ⟨a, w₂, hanswer, ha, hafter⟩ := hcall _ _ aside sound shows
    cases hanswer.unique answer
    exact ⟨_, _, ha, aside.trans hafter, .inl ⟨hit, _, rfl⟩⟩
  | next aside sound shows answer miss rest =>
    obtain ⟨a, w₂, hanswer, ha, hafter⟩ := hcall _ _ aside sound shows
    cases hanswer.unique answer
    exact ⟨_, _, ha, aside.trans hafter, .inr ⟨miss, _, rfl, rest⟩⟩
  | stopped aside sound shows stop =>
    obtain ⟨a, w₂, hanswer, -⟩ := hcall _ _ aside sound shows
    cases hanswer.unique stop
  | endless aside sound shows endless =>
    obtain ⟨a, w₂, hanswer, -⟩ := hcall _ _ aside sound shows
    exact absurd hanswer (endless _)

/-- A call of a function that does nothing but tell elements apart makes objects at most. -/
theorem Tells.aside {g : Element → Bool} (h : Tells i f start els g) (hstart : start.Sound)
    (hroot : i.env.index < start.frames.size) (hf : start.InRange f)
    (hels : ∀ el ∈ els, el.Known start start) (hw : Proceeds i f start els pending w) :
    start.Aside start w ∧ w.Sound ∧
      ∀ el' ∈ pending, ∃ el ∈ els, ∀ w' x, w.Keeps w' → World.Shows start w' el' x →
        World.Shows start w' el x := by
  induction hw with
  | start => exact ⟨.refl _ _, hstart, fun el hel => ⟨el, hel, fun _ _ _ hx => hx⟩⟩
  | aside _ haside hsound ih =>
    obtain ⟨hstart, -, hpending⟩ := ih
    refine ⟨hstart.trans haside, hsound, fun el' hel' => ?_⟩
    obtain ⟨el, hel, hshows⟩ := hpending el' hel'
    exact ⟨el, hel, fun w' x hkeeps => hshows w' x (haside.toKeeps.trans hkeeps)⟩
  | @taken els' w xs _ hshows ih =>
    obtain ⟨hstart, hsound, hpending⟩ := ih
    refine ⟨hstart, hsound, List.forall_mem_map.2 fun x hx => ?_⟩
    obtain ⟨el', hel', hx⟩ : ∃ el' ∈ els', World.Shows start w el' x := by
      obtain ⟨n, hn, rfl⟩ := List.getElem_of_mem hx
      have hn' : n < els'.length := by rwa [hshows.length_eq]
      exact ⟨els'[n], List.getElem_mem hn', hshows.get hn' hn⟩
    obtain ⟨el, hel, hlater⟩ := hpending el' hel'
    refine ⟨el, hel, fun w' y hkeeps hy => ?_⟩
    obtain rfl : y = x := hy
    exact hlater w' y hkeeps (hx.keeps hkeeps)
  | @call el' els' w w' x a _ hshows hcall ih =>
    obtain ⟨hstart, hsound, hpending⟩ := ih
    obtain ⟨el, hel, hlater⟩ := hpending el' List.mem_cons_self
    have hx := hlater w x (.refl w) hshows
    obtain ⟨b, w₁, hanswer, -, haside⟩ := h w el x hel hstart hsound hx
    obtain ⟨rfl, rfl⟩ : a = b ∧ w' = w₁ := by
      have heq := Run.ComesTo.unique hcall (hanswer i.env)
      cases heq
      exact ⟨rfl, rfl⟩
    have hgrows := hstart.toKeeps.toGrows
    have hkept := (Interpreter.Calls.kept hcall (Reserve.safe_none hsound) hgrows (.none start)
      (fun _ => id) hroot hf (hx.known ((hels el hel).mono hgrows))).1
    refine ⟨hstart.trans haside, hkept.safe.sound, fun el₁ hel₁ => ?_⟩
    obtain ⟨el₂, hel₂, hlater⟩ := hpending el₁ (List.mem_cons_of_mem _ hel₁)
    exact ⟨el₂, hel₂, fun w' y hkeeps => hlater w' y (haside.toKeeps.trans hkeeps)⟩

end

end TemplateLisp
