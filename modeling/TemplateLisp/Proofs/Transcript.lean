import TemplateLisp.Proofs.Calls
import TemplateLisp.Proofs.Composition
import TemplateLisp.Proofs.StepOrder

/-!
# What a run writes

A transcript of a run lists, in order, what each call of `print` and `println` in it wrote until it
ended. `Run.Transcript` has a rule for such a call, one for what never writes, and rules that put
the transcripts of the parts of a run together. A run that has a transcript is the run it says
(`Run.Transcript.run_eq`) and has appended the listed texts to the output and nothing else
(`Run.Transcript.output`). Every evaluation has a transcript (`Run.transcribed`).
-/

namespace TemplateLisp

namespace Run

section
variable {α β : Type}

/-- The world that is left behind, however a run ends. -/
def leaves : EStateM.Result Stop World α → World
  | .ok _ w => w
  | .error _ w => w

/-- The run leaves the output as it is, from every world. -/
def Silent (x : Run α) : Prop := ∀ w, (leaves (x.run w)).output = w.output

theorem run_look_bind (f : World → α) (g : α → Run β) (w : World) :
    (look f >>= g).run w = (g (f w)).run w := rfl

theorem run_lookOrStop (f : World → Except Stop α) (w : World) :
    (lookOrStop f).run w = match f w with
      | .ok a => .ok a w
      | .error s => .error s w := rfl

theorem run_mapM_lookOrStop (f : β → World → Except Stop α) (bs : List β) (w : World) :
    EStateM.run (bs.mapM fun b => lookOrStop (f b)) w = match bs.mapM (f · w) with
      | .ok as => .ok as w
      | .error s => .error s w := by
  induction bs with
  | nil => rfl
  | cons b bs ih =>
    rw [List.mapM_cons, List.mapM_cons, EStateM.run_bind, run_lookOrStop]
    cases f b w with
    | error s => rfl
    | ok a =>
      show EStateM.run (bs.mapM (fun b => lookOrStop (f b)) >>= fun as => pure (a :: as)) w = _
      rw [EStateM.run_bind, ih]
      cases bs.mapM (f · w) <;> rfl

/-- Displaying values looks at the world and nothing more. -/
theorem run_displayAll (room : Room) (vs : List Value) (w : World) :
    (displayAll room vs).run w = match vs.mapM (w.displayText room) with
      | .ok shown => .ok (String.join shown) w
      | .error s => .error s w := by
  have hd : displayed room = fun v => lookOrStop fun w => w.displayText room v := rfl
  unfold displayAll
  rw [EStateM.run_bind, hd, run_mapM_lookOrStop (fun v w => w.displayText room v)]
  cases vs.mapM (w.displayText room) <;> rfl

theorem Silent.lookOrStop (f : World → Except Stop α) : Silent (lookOrStop f) := by
  intro w
  rw [run_lookOrStop]
  cases f w <;> rfl

theorem Silent.displayAll (room : Room) (vs : List Value) : Silent (displayAll room vs) := by
  intro w
  rw [run_displayAll]
  cases vs.mapM (w.displayText room) <;> rfl

end

/-- From the world `w` the run writes the texts, one for each call that writes, and ends as said. -/
inductive Transcript : {α : Type} → Run α → (w : World) → (texts : List String) →
    EStateM.Result Stop World α → Prop where
  | silent {α : Type} {x : Run α} (quiet : Silent x) (w : World) : Transcript x w [] (x.run w)
  | print {room : Room} {vs : List Value} {w : World} {shown : List String} (ending : String)
      (display : vs.mapM (w.displayText room) = .ok shown) :
      Transcript (Run.print room ending vs) w [String.join shown ++ ending]
        (.ok .nil (w.emit (String.join shown ++ ending)))
  | bind {α β : Type} {x : Run α} {f : α → Run β} {w w' : World} {a : α} {texts more : List String}
      {r : EStateM.Result Stop World β} (first : Transcript x w texts (.ok a w'))
      (second : Transcript (f a) w' more r) : Transcript (x >>= f) w (texts ++ more) r
  | stopped {α β : Type} {x : Run α} {f : α → Run β} {w w' : World} {s : Stop} {texts : List String}
      (first : Transcript x w texts (.error s w')) : Transcript (x >>= f) w texts (.error s w')
  | handled {α : Type} {x : Run α} {handler : Stop → Run α} {w w' : World} {s : Stop}
      {texts more : List String} {r : EStateM.Result Stop World α}
      (first : Transcript x w texts (.error s w')) (second : Transcript (handler s) w' more r) :
      Transcript (tryCatch x handler) w (texts ++ more) r
  | unhandled {α : Type} {x : Run α} {handler : Stop → Run α} {w w' : World} {a : α}
      {texts : List String} (first : Transcript x w texts (.ok a w')) :
      Transcript (tryCatch x handler) w texts (.ok a w')

namespace Transcript

variable {α : Type} {x : Run α} {w : World} {texts : List String} {r : EStateM.Result Stop World α}

/-- A transcript is one of the run as it is. -/
theorem run_eq (h : Transcript x w texts r) : x.run w = r := by
  induction h with
  | silent quiet w => rfl
  | print ending display =>
    unfold Run.print
    rw [EStateM.run_bind, run_displayAll, display]
    rfl
  | bind first second ih₁ ih₂ => rw [EStateM.run_bind, ih₁]; exact ih₂
  | stopped first ih => rw [EStateM.run_bind, ih]
  | handled first second ih₁ ih₂ => rw [run_tryCatch, ih₁]; exact ih₂
  | unhandled first ih => rw [run_tryCatch, ih]

/-- The output is what it was, with the texts appended in order. -/
theorem output (h : Transcript x w texts r) :
    (leaves r).output = w.output ++ String.join texts := by
  induction h with
  | silent quiet w => rw [quiet w, String.join_nil, String.append_empty]
  | print ending display => simp [leaves, World.emit]
  | bind first second ih₁ ih₂ => rw [ih₂, String.join_append, ← String.append_assoc, ← ih₁]; rfl
  | stopped first ih => exact ih
  | handled first second ih₁ ih₂ =>
    rw [ih₂, String.join_append, ← String.append_assoc, ← ih₁]
    rfl
  | unhandled first ih => exact ih

/-- However the call of a printing function is put together, what is listed for it is the display
text of its arguments and its ending. -/
theorem join_print {room : Room} {vs : List Value} {shown : List String} {ending : String}
    {r : EStateM.Result Stop World Value} (h : Transcript (Run.print room ending vs) w texts r)
    (display : vs.mapM (w.displayText room) = .ok shown) :
    String.join texts = String.join shown ++ ending := by
  have hprint := Transcript.print ending display
  have hsame := h.output.symm.trans (h.run_eq.symm.trans hprint.run_eq ▸ hprint.output)
  simpa using (String.append_right_inj _).1 hsame

end Transcript

/-- What a printing function writes behind its arguments. -/
def printEnding? : Builtin → Option String
  | .println => some "\n"
  | .print => some ""
  | _ => none

/-- A call of `print` or `println` writes the display text of its arguments and its ending, and
nothing else is listed for it. -/
theorem transcript_printing [Host] {b : Builtin} {ending : String}
    (hb : printEnding? b = some ending) (room : Room) (call : Caller) {vs : List Value} {w : World}
    {shown : List String} (display : vs.mapM (w.displayText room) = .ok shown) :
    Transcript (b.run room call vs) w [String.join shown ++ ending]
        (.ok .nil (w.emit (String.join shown ++ ending))) ∧
      ∀ texts r, Transcript (b.run room call vs) w texts r →
        String.join texts = String.join shown ++ ending := by
  cases b <;> cases hb
  case print | println => exact ⟨.print _ display, fun texts r h => h.join_print display⟩

/-! ## Every evaluation has a transcript -/

/-- The run has a transcript from the world. -/
def Transcribed ⦃α : Type⦄ (x : Run α) (w : World) : Prop :=
  ∃ texts, Transcript x w texts (x.run w)

namespace Transcribed

variable {α β : Type}

theorem silent {x : Run α} (hx : Silent x) (w : World) : Transcribed x w := ⟨[], .silent hx w⟩

theorem bind {x : Run α} {f : α → Run β} {w : World} (hx : Transcribed x w)
    (hf : ∀ a w', x.run w = .ok a w' → Transcribed (f a) w') : Transcribed (x >>= f) w := by
  obtain ⟨texts, first⟩ := hx
  unfold Transcribed
  rw [EStateM.run_bind]
  cases hr : x.run w with
  | error s w' =>
    rw [hr] at first
    exact ⟨texts, .stopped first⟩
  | ok a w' =>
    rw [hr] at first
    obtain ⟨more, second⟩ := hf a w' hr
    exact ⟨texts ++ more, .bind first second⟩

theorem tryCatch {x : Run α} {handler : Stop → Run α} {w : World} (hx : Transcribed x w)
    (hhandler : ∀ s w, Transcribed (handler s) w) :
    Transcribed (MonadExcept.tryCatch x handler) w := by
  obtain ⟨texts, first⟩ := hx
  unfold Transcribed
  rw [run_tryCatch]
  cases hr : x.run w with
  | ok a w' =>
    rw [hr] at first
    exact ⟨texts, .unhandled first⟩
  | error s w' =>
    rw [hr] at first
    obtain ⟨more, second⟩ := hhandler s w'
    exact ⟨texts ++ more, .handled first second⟩

theorem print (room : Room) (ending : String) (vs : List Value) (w : World) :
    Transcribed (Run.print room ending vs) w := by
  cases display : vs.mapM (w.displayText room) with
  | ok shown =>
    have written := @Transcript.print room vs w shown ending display
    exact ⟨_, written.run_eq ▸ written⟩
  | error s =>
    refine bind (silent (.displayAll room vs) w) fun text w' hr => ?_
    rw [run_displayAll, display] at hr
    cases hr

theorem permissive [Host] : Permissive Transcribed where
  pure _ := silent fun _ => rfl
  bind := bind
  stop _ w _ := silent (fun _ => rfl) w
  crash _ w _ := silent (fun _ => rfl) w
  lookOrStop f w _ := silent (.lookOrStop f) w
  make _ hf := silent hf
  raise _ := silent fun _ => rfl
  lookAny f := silent (.lookOrStop f)
  tryCatch := tryCatch

/-- What evaluations are put together from has a transcript, and so have they. -/
theorem composable [Host] : Composable Transcribed where
  toClosed := permissive.toClosed
  placed pos := permissive.placed pos
  builtin b room _ args w hcall :=
    permissive.orHostFault _ (permissive.builtin w hcall room (print room) b args)
  hostFunction g name room _ env args w hcall :=
    permissive.orHostFault name (permissive.hostFunction w hcall room env g args)
  findMember name asFault room _ receiver w hcall :=
    permissive.orAccessFault true name asFault (permissive.findMember w hcall room receiver name)
  callMember name asFault room _ args m w hcall :=
    permissive.orAccessFault false name asFault (permissive.callMember w hcall room args m)

end Transcribed

end Run

end TemplateLisp
