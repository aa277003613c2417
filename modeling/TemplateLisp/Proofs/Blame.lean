import TemplateLisp.Proofs.CallPaths
import TemplateLisp.Proofs.CallBacks

/-!
# Whom type errors blame

A type error of a built-in function names a function and the index of an argument. `Run.Blames` says
of a run that the type errors it may stop with are of some kind. The lemmas in its namespace say so
of what built-in functions have in common, each for the complaints that it makes itself: walks
through sequences, texts for messages and arguments of a shape.

Of the language, only a walk through a list, pair by pair, complains without a name: it finds out at
the end that the list does not end in `nil` (`Run.Blames.next`). The host may complain of what it
likes on a walk through an object of its own (`AllowsRaised`).
-/

namespace TemplateLisp

/-! ## Looking without errors -/

/-- A look at the world that does not fail with an error of the language. -/
def World.Errorless {α : Type} (x : Except Stop α) : Prop := ∀ e, x ≠ .error (.error e)

namespace World.Errorless

section
variable {α β : Type}

theorem ok (a : α) : Errorless (.ok a) := fun _ h => by cases h

theorem error {s : Stop} (hs : ∀ e, s ≠ .error e) : Errorless (.error s : Except Stop α) := by
  intro e h
  cases h
  exact hs e rfl

theorem tooDeep : Errorless (.error .tooDeep : Except Stop α) := error nofun

theorem endless : Errorless (.error .endless : Except Stop α) := error nofun

theorem crash (f : HostFault) : Errorless (.error (.crash f) : Except Stop α) := error nofun

theorem bind {x : Except Stop α} {f : α → Except Stop β} (hx : Errorless x)
    (hf : ∀ a, Errorless (f a)) : Errorless (x >>= f) := by
  intro e he
  cases x with
  | error s =>
    cases he
    exact hx e rfl
  | ok a => exact hf a e he

theorem map {x : Except Stop α} (hx : Errorless x) (f : α → β) : Errorless (x.map f) := by
  intro e he
  cases x with
  | error s =>
    cases he
    exact hx e rfl
  | ok a => cases he

theorem ite {c : Prop} [Decidable c] {x y : Except Stop α} (hx : Errorless x) (hy : Errorless y) :
    Errorless (if c then x else y) := by
  split
  · exact hx
  · exact hy

theorem mapM {f : α → Except Stop β} (hf : ∀ a, Errorless (f a)) (as : List α) :
    Errorless (as.mapM f) := by
  induction as with
  | nil => exact ok _
  | cons a as ih =>
    rw [List.mapM_cons]
    exact bind (hf a) fun _ => bind ih fun _ => ok _

end

variable (w : World)

theorem unfoldAtom (v : Value) : Errorless (w.unfoldAtom v) := by
  cases v with
  | num n =>
    cases n with
    | int n =>
      unfold World.unfoldAtom
      dsimp only
      split
      · exact ok _
      · exact crash _
    | _ => exact ok _
  | _ => exact ok _

/-- Writing a value out as a tree does not fail with an error of the language. -/
theorem unfoldAt (guard : Option (List Value)) (levels : Nat) (v : Value) :
    Errorless (w.unfoldAt guard levels v) := by
  induction levels generalizing guard v with
  | zero => exact tooDeep
  | succ n ih =>
    cases v with
    | cell r =>
      simp only [World.unfoldAt]
      split
      · exact endless
      · refine bind (mapM (fun (c : Cell) => bind (ih none c.car) fun _ => ok _) _) fun items => ?_
        exact bind (ih none _) fun last => ok _
    | vector r | tuple r => exact ite (ok _) (bind (mapM (ih _) _) fun _ => ok _)
    | map r =>
      refine ite (ok _) (bind (mapM (fun (p : Value × Value) => ?_) _) fun _ => ok _)
      exact bind (ih _ p.1) fun _ => bind (ih _ p.2) fun _ => ok _
    | env r =>
      have hentry (p : Value × Value) : Errorless (do
          let name := (← w.unfoldAt (bareGuard p.1) n p.1).plain
          return name ++ ": " ++ (← w.unfoldAt (some (guard.getD [])) n p.2).shown) :=
        bind (ih _ p.1) fun _ => bind (ih _ p.2) fun _ => ok _
      simp only [World.unfoldAt]
      split
      · exact bind (bind (mapM hentry _) fun _ => ok _) fun _ => ok _
      · refine bind (mapM (fun s => ?_) _) fun _ => ok _
        split
        · exact ok _
        · exact bind (mapM hentry _) fun _ => ok _
    | _ =>
      simp only [World.unfoldAt]
      exact unfoldAtom w _

/-! ### Equality -/

section
variable {w} {test : Value → Value → Except Stop Bool} (htest : ∀ a b, Errorless (test a b))
include htest

theorem allPairs (xs ys : List Value) : Errorless (World.allPairs test xs ys) := by
  induction xs generalizing ys with
  | nil => cases ys <;> exact ok _
  | cons x xs ih =>
    cases ys with
    | nil => exact ok _
    | cons y ys => exact bind (htest x y) fun _ => ite (ih ys) (ok _)

theorem spinesAgree (shortcut : Bool) (fuel : Nat) (a b : Value) :
    Errorless (w.spinesAgree shortcut test test fuel a b) := by
  induction fuel generalizing a b with
  | zero => exact endless
  | succ n ih =>
    unfold World.spinesAgree
    split
    · exact ite (ok _) (bind (htest _ _) fun _ => ite (ih _ _) (ok _))
    · exact htest _ _

theorem entriesAgree (fs es : List (Value × Value)) : Errorless (w.entriesAgree test fs es) := by
  induction es with
  | nil => exact ok _
  | cons e es ih =>
    obtain ⟨k, v⟩ := e
    unfold World.entriesAgree
    split
    · exact ok _
    · exact bind (htest _ _) fun _ => ite ih (ok _)

end

theorem equalAt (levels : Nat) (a b : Value) : Errorless (w.equalAt levels a b) := by
  induction levels generalizing a b with
  | zero => exact tooDeep
  | succ n ih =>
    refine ite (ok _) ?_
    split
    · exact ok _
    · exact ok _
    · exact ok _
    · exact spinesAgree ih _ _ _ _
    · exact ite (entriesAgree ih _ _) (ok _)
    · split
      · exact ite (allPairs ih _ _) (ok _)
      · exact ok _

theorem equal (room : Room) (a b : Value) : Errorless (w.equal room a b) := equalAt w _ a b

theorem keysMatch (room : Room) (key candidate : Value) :
    Errorless (w.keysMatch room key candidate) := by
  refine bind (equal w room key candidate) fun _ => ite (ok _) ?_
  split <;> exact ok _

theorem matchingKey? (room : Room) (key : Value) (es : List (Value × Value)) :
    Errorless (w.matchingKey? room key es) := by
  induction es with
  | nil => exact ok _
  | cons e es ih => exact bind (keysMatch w room key e.1) fun _ => ite (ok _) ih

theorem lookUp? (room : Room) (es : List (Value × Value)) (key : Value) :
    Errorless (w.lookUp? room es key) := by
  unfold World.lookUp?
  split
  · exact ok _
  · refine bind (matchingKey? w room key es) fun found => ?_
    cases found <;> exact ok _

end World.Errorless

/-- A walk through an object of the host begins at its first element. -/
theorem World.cursor?_object {w : World} {r : ObjectRef} {c : Cursor}
    (h : w.cursor? (.object r) = some c) :
    c = .object r 0 := by
  rw [World.cursor?] at h
  split at h
  · exact (Option.some.inj h).symm
  · cases h

/-! ## Allowed complaints -/

/-- Complaints about the argument of a function are allowed. -/
def Allows (P : World → TypeFault → Prop) (name : String) (index : Nat) : Prop :=
  ∀ w expected got, P w (.argument name index expected got)

/-- A list that ends in something else than `nil` may be refused. -/
def AllowsDotted (P : World → TypeFault → Prop) (v : Value) : Prop :=
  ∀ w r cells last text, v = .cell r → w.Spine v cells last → last ≠ .nil → P w (.improperList text)

/-- If the run stops with a type error, the complaint is allowed. -/
def Run.Blames (P : World → TypeFault → Prop) {α : Type} (w : World) (x : Run α) : Prop :=
  ∀ f pos w', x.run w = .error (.error ⟨.type f, pos⟩) w' → P w' f

/-- What the host complains of on a walk through one of its objects, or in measuring it,
is allowed. -/
def AllowsRaised [Host] (P : World → TypeFault → Prop) (v : Value) : Prop :=
  ∀ r, v = .object r → ∀ room w,
    (∀ index, Run.Blames P w (Host.elementAt room r index)) ∧ Run.Blames P w (Host.sizeOf room r)

/-- If what is left of the list that is walked through ends in something else than `nil`, the list
may be refused. What the host complains of is passed on. -/
def Cursor.Allowed [Host] (P : World → TypeFault → Prop) (w : World) : Cursor → Prop
  | .list whole behind =>
    ∀ cells last text, w.Spine (w.restOf whole behind) cells last → last ≠ .nil →
      P w (.improperList text)
  | .object r _ => ∀ room index w, Run.Blames P w (Host.elementAt room r index)
  | _ => True

namespace Run.Blames

section
variable {P : World → TypeFault → Prop} {α β : Type} {w : World} {x : Run α} {f : α → Run β}

theorem pure (a : α) : Blames P w (Pure.pure a : Run α) := nofun

theorem bind (hx : Blames P w x) (hf : ∀ a w', x.run w = .ok a w' → Blames P w' (f a)) :
    Blames P w (x >>= f) := by
  intro t pos w' h
  rcases bind_eq_error_iff.1 h with hstop | ⟨a, w₁, hok, hstop⟩
  · exact hx t pos w' hstop
  · exact hf a w₁ hok t pos w' hstop

/-- Parts that complain as they may in every world. -/
theorem seq (hx : Blames P w x) (hf : ∀ a w, Blames P w (f a)) : Blames P w (x >>= f) :=
  bind hx fun a w' _ => hf a w'

theorem ite {c : Prop} [Decidable c] {x y : Run α} (hx : Blames P w x) (hy : Blames P w y) :
    Blames P w (if c then x else y) := by
  split
  · exact hx
  · exact hy

theorem look (f : World → α) : Blames P w (Run.look f) := nofun

theorem make (f : World → α × World) : Blames P w (Run.make f) := nofun

theorem modify (f : World → World) : Blames P w (modify f : Run PUnit) := nofun

theorem lookOrStop {f : World → Except Stop α} (hf : ∀ w, World.Errorless (f w)) :
    Blames P w (Run.lookOrStop f) := by
  intro t pos w' h
  rw [Run.run_lookOrStop] at h
  cases hw : f w with
  | ok a =>
    rw [hw] at h
    cases h
  | error s =>
    rw [hw] at h
    cases h
    exact absurd hw (hf w _)

theorem throw {s : Stop} (hs : ∀ t pos, s ≠ .error ⟨.type t, pos⟩) :
    Blames P w (throw s : Run α) := by
  intro t pos w' h
  cases h
  exact absurd rfl (hs t pos)

theorem fail {f : Fault} (hf : ∀ t, f ≠ .type t) : Blames P w (Run.fail f : Run α) :=
  throw fun t _ h => hf t (by cases h; rfl)

theorem crash (f : HostFault) : Blames P w (Run.crash f : Run α) := throw nofun

theorem mapM {f : α → Run β} (hf : ∀ a w, Blames P w (f a)) (as : List α) :
    Blames P w (as.mapM f) := by
  induction as generalizing w with
  | nil => exact pure _
  | cons a as ih =>
    rw [List.mapM_cons]
    exact seq (hf a w) fun _ _ => seq ih fun _ _ => pure _

theorem orHostFault (name : String) (hx : Blames P w x) : Blames P w (Run.orHostFault name x) := by
  intro t pos w' h
  rw [Run.orHostFault, Run.run_tryCatch] at h
  cases hrun : x.run w with
  | ok a w₁ =>
    rw [hrun] at h
    cases h
  | error s w₁ =>
    rw [hrun] at h
    cases s with
    | error e =>
      cases h
      exact hx t pos _ hrun
    | _ => cases h

/-! ### Texts, types and lists -/

theorem displayed (room : Room) (v : Value) : Blames P w (Run.displayed room v) :=
  lookOrStop fun w => .map (.unfoldAt w none _ v) _

theorem wrongArgument {name : String} {i : Nat} (h : Allows P name i)
    (expected : String) (v : Value) :
    Blames P w (Run.wrongArgument name i expected v : Run α) := by
  intro t pos w' herror
  cases herror
  exact h _ _ _

/-- Refusing a list is allowed if its refusal is, whatever its text. -/
theorem improperList (h : ∀ text, P w (.improperList text)) (room : Room) (v : Value) :
    Blames P w (Run.improperList room v : Run α) := by
  intro t pos w' herror
  rcases bind_eq_error_iff.1 herror with hstop | ⟨text, w₁, hok, hfail⟩
  · have hlook : Blames P w (Run.lookOrStop fun w => w.readableText room v) :=
      lookOrStop fun w => .map (.unfoldAt w none _ v) _
    exact hlook t pos w' hstop
  · rw [Run.run_lookOrStop] at hok
    split at hok
    · cases hok
      cases hfail
      exact h _
    · cases hok

theorem spine (v : Value) : Blames P w (Run.spine v) := by
  refine lookOrStop fun w => ?_
  split
  · exact .ok _
  · exact .error nofun

theorem spine_of_run {v tail : Value} {cells : List Cell} {w' : World}
    (h : (Run.spine v).run w = .ok (cells, tail) w') : w' = w ∧ w.Spine v cells tail := by
  rw [Run.spine, Run.run_lookOrStop] at h
  cases hs : w.spine? v with
  | none =>
    rw [hs] at h
    cases h
  | some s =>
    rw [hs] at h
    cases h
    obtain ⟨rest, hrest, hspine, -⟩ := World.spine_of_spineAt hs
    obtain rfl : cells = rest := hrest
    exact ⟨rfl, hspine⟩

theorem properItems {r : CellRef} (h : AllowsDotted P (.cell r)) (room : Room) :
    Blames P w (Run.properItems room (.cell r)) := by
  refine bind (spine _) fun s w' hs => ?_
  obtain ⟨cells, tail⟩ := s
  obtain ⟨rfl, hspine⟩ := spine_of_run hs
  dsimp only
  split
  · exact pure _
  · exact improperList (fun text => h _ r cells tail text rfl hspine ‹_›) room _

theorem list (items : List Value) : Blames P w (Run.list items) := make _

theorem vector (items : List Value) : Blames P w (Run.vector items) := make _

theorem number (n : Number) : Blames P w (Run.number n) := by
  unfold Run.number
  split
  · exact make _
  · exact make _
  · exact pure _

/-! ### Walking -/

/-- At the end of a list it is found out what it ends in. -/
theorem next [Host] {c : Cursor} (h : c.Allowed P w) (room : Room) : Blames P w (c.next room) := by
  match c with
  | .list whole behind =>
    refine bind (look _) fun rest w' hlook => ?_
    obtain ⟨hrest, rfl⟩ : w.restOf whole behind = rest ∧ w = w' := by cases hlook; exact ⟨rfl, rfl⟩
    have hdotted (hcell : ∀ r, rest ≠ .cell r) (hnil : rest ≠ .nil) :
        Blames P w (Run.improperList room whole : Run (Option (Value × Cursor))) :=
      improperList (fun text => h [] rest text (by rw [hrest]; exact .stop hcell) hnil) room whole
    cases rest with
    | cell r => exact seq (look _) fun _ _ => pure _
    | nil => exact pure _
    | _ => exact hdotted nofun nofun
  | .items [] => exact pure _
  | .items (_ :: _) => exact pure _
  | .entries r index size =>
    refine seq (look _) fun es w => ite (crash _) ?_
    split
    · exact pure _
    · exact seq (list _) fun _ _ => pure _
  | .generator r =>
    refine seq (look _) fun rest w => ?_
    cases rest with
    | nil => exact pure _
    | cons v vs => exact seq (modify _) fun _ _ => pure _
  | .vector r index =>
    refine seq (look _) fun vs w => ?_
    split <;> exact pure _
  | .object r index =>
    refine seq (h room index w) fun found w => ?_
    cases found <;> exact pure _

/-- Behind an element the walk may complain about the same. -/
theorem allowed_next [Host] {c c' : Cursor} (h : c.Allowed P w) {room : Room}
    {v : Value} {w' : World} (hnext : (c.next room).run w = .ok (some (v, c')) w') :
    c'.Allowed P w' := by
  match c with
  | .list whole behind =>
    rw [Cursor.next, Run.run_look_bind] at hnext
    cases hrest : w.restOf whole behind with
    | cell r =>
      rw [hrest] at hnext
      cases hnext
      intro cells last text hspine hlast
      refine h (w.cell r :: cells) last text ?_ hlast
      rw [hrest]
      exact .pair hspine
    | nil =>
      rw [hrest] at hnext
      cases hnext
    | _ =>
      rw [hrest] at hnext
      obtain ⟨text, w₁, -, hfail⟩ := bind_eq_ok_iff.1 hnext
      cases hfail
  | .items [] => cases hnext
  | .items (_ :: _) =>
    cases hnext
    trivial
  | .entries r index size =>
    rw [Cursor.next, Run.run_look_bind] at hnext
    split at hnext
    · cases hnext
    · split at hnext
      · cases hnext
      · cases hnext
        trivial
  | .generator r =>
    rw [Cursor.next, Run.run_look_bind] at hnext
    split at hnext
    · cases hnext
    · cases hnext
      trivial
  | .vector r index =>
    rw [Cursor.next, Run.run_look_bind] at hnext
    split at hnext
    · cases hnext
    · cases hnext
      trivial
  | .object r index =>
    obtain ⟨found, w₁, -, hfound⟩ := bind_eq_ok_iff.1 hnext
    cases found with
    | none => cases hfound
    | some v =>
      cases hfound
      exact h

theorem mapAt [Host] {f : Value → Run α} (hf : ∀ v w, Blames P w (f v))
    (hsame : ∀ v w a w', (f v).run w = .ok a w' → w' = w) {c : Cursor}
    (h : c.Allowed P w) (room : Room) (fuel : Nat) (found : List α) :
    Blames P w (c.mapAt room f fuel found) := by
  induction fuel generalizing found c w with
  | zero => exact throw nofun
  | succ n ih =>
    refine bind (next h room) fun next w' hnext => ?_
    cases next with
    | none => exact pure _
    | some p =>
      refine bind (hf p.1 w') fun a w'' ha => ?_
      rw [hsame _ _ _ _ ha]
      exact ih (allowed_next h hnext) _

theorem map [Host] {f : Value → Run α} (hf : ∀ v w, Blames P w (f v))
    (hsame : ∀ v w a w', (f v).run w = .ok a w' → w' = w) {c : Cursor} (h : c.Allowed P w)
    (room : Room) : Blames P w (c.map room f) := by
  refine bind (look _) fun fuel w' hlook => ?_
  cases hlook
  exact mapAt hf hsame h room _ []

theorem toList [Host] {c : Cursor} (h : c.Allowed P w) (room : Room) : Blames P w (c.toList room) :=
  map (fun _ _ => pure _) (fun _ _ _ _ hpure => by cases hpure; rfl) h room

theorem cursor {name : String} {i : Nat} (h : Allows P name i) (v : Value) :
    Blames P w (Run.cursor name i v) := by
  refine seq (look _) fun found w => ?_
  cases found with
  | some c => exact pure c
  | none => exact wrongArgument h _ _

theorem cursor_of_run {name : String} {i : Nat} {v : Value} {c : Cursor} {w' : World}
    (hc : (Run.cursor name i v).run w = .ok c w') : w' = w ∧ w.cursor? v = some c := by
  rw [Run.cursor, Run.run_look_bind] at hc
  cases hcursor : w.cursor? v with
  | none =>
    rw [hcursor] at hc
    obtain ⟨got, w₁, -, hfail⟩ := bind_eq_ok_iff.1 hc
    cases hfail
  | some c' =>
    rw [hcursor] at hc
    cases hc
    exact ⟨rfl, rfl⟩

/-- A walk through an argument starts with what may be said about it. -/
theorem allowed_cursor [Host] {v : Value} {c : Cursor} (h : AllowsDotted P v)
    (hraised : AllowsRaised P v) (hc : w.cursor? v = some c) : c.Allowed P w := by
  cases v with
  | cell r =>
    cases hc
    exact fun cells last text => h w r cells last text rfl
  | object r =>
    obtain rfl := World.cursor?_object hc
    exact fun room index w => (hraised r rfl room w).1 index
  | _ => cases hc <;> trivial

/-- At its start a walk through a list has nothing to complain about. -/
theorem next_start [Host] {v : Value} {c : Cursor} (hraised : AllowsRaised P v)
    (hc : w.cursor? v = some c) (room : Room) : Blames P w (c.next room) := by
  cases v with
  | cell r =>
    cases hc
    refine bind (look _) fun rest w' hlook => ?_
    cases hlook
    exact seq (look _) fun _ _ => pure _
  | _ => exact next (allowed_cursor (fun _ _ _ _ _ => nofun) hraised hc) room

/-- Taking all elements at once, a function complains in its own name. -/
theorem items [Host] {name : String} {i : Nat} (h : Allows P name i) (room : Room) {v : Value}
    (hraised : AllowsRaised P v) : Blames P w (Run.items room name i v) := by
  unfold Run.items
  split
  · exact seq (spine _) fun _ _ => ite (pure _) (wrongArgument h _ _)
  · rename_i hcell
    refine bind (cursor h v) fun c w' hc => ?_
    obtain ⟨rfl, hcursor⟩ := cursor_of_run hc
    have hallowed : c.Allowed P w' :=
      allowed_cursor (fun _ r _ _ _ hr => absurd hr (hcell r)) hraised hcursor
    intro t pos w'' herror
    rw [Run.run_tryCatch] at herror
    cases hrun : (c.toList room).run w' with
    | ok a w₁ =>
      rw [hrun] at herror
      cases herror
    | error s w₁ =>
      rw [hrun] at herror
      cases s with
      | error e =>
        cases herror
        exact toList hallowed room t pos _ hrun
      | crash g =>
        have hblames : Blames P w₁ (if g.kind = .typeError then
            Run.wrongArgument name i "a sequence" v else MonadExcept.throw (.crash g) :
              Run (List Value)) :=
          ite (wrongArgument h _ _) (throw nofun)
        exact hblames t pos w'' herror
      | _ => cases herror

/-! ### Arguments -/

theorem numberArgument {name : String} {i : Nat} (h : Allows P name i) (v : Value) :
    Blames P w (Argument.number name i v) := by
  unfold Argument.number
  split
  · exact pure _
  · exact wrongArgument h _ _

theorem integerArgument {name : String} {i : Nat} (h : Allows P name i) (v : Value) :
    Blames P w (Argument.integer name i v) := by
  unfold Argument.integer
  split
  · exact pure _
  · exact wrongArgument h _ _

theorem textArgument {name : String} {i : Nat} (h : Allows P name i) (v : Value) :
    Blames P w (Argument.text name i v) := by
  unfold Argument.text
  split
  · exact pure _
  · exact wrongArgument h _ _

/-- A function that is called with an argument gets it as it is, and it can be called. -/
theorem withFunction {name : String} {i : Nat} (h : Allows P name i) (v : Value) {f : Value → Run β}
    (hf : v.isCallable = true → ∀ w, Blames P w (f v)) :
    Blames P w (Argument.function name i v >>= f) := by
  unfold Argument.function
  by_cases hv : v.isCallable = true
  · rw [if_pos hv, pure_bind]
    exact hf hv w
  · rw [if_neg hv]
    refine bind (wrongArgument h _ _) fun a w' hok => ?_
    obtain ⟨got, w₁, -, hfail⟩ := bind_eq_ok_iff.1 hok
    cases hfail

theorem miscounted (name : String) (expected : ArgumentCount) (args : List Value) :
    Blames P w (Argument.miscounted name expected args) := fail nofun

theorem unary (name : String) {f : Value → Run Value} {args : List Value}
    (hf : ∀ v, args = [v] → Blames P w (f v)) : Blames P w (Argument.unary name f args) := by
  unfold Argument.unary
  split
  · exact hf _ rfl
  · exact miscounted _ _ _

theorem binary (name : String) {f : Value → Value → Run Value} {args : List Value}
    (hf : ∀ u v, args = [u, v] → Blames P w (f u v)) :
    Blames P w (Argument.binary name f args) := by
  unfold Argument.binary
  split
  · exact hf _ _ rfl
  · exact miscounted _ _ _

theorem ternary (name : String) {f : Value → Value → Value → Run Value} {args : List Value}
    (hf : ∀ t u v, args = [t, u, v] → Blames P w (f t u v)) :
    Blames P w (Argument.ternary name f args) := by
  unfold Argument.ternary
  split
  · exact hf _ _ _ rfl
  · exact miscounted _ _ _

theorem unaryOrBinary (name : String) {f : Value → Option Value → Run Value} {args : List Value}
    (hf : ∀ u v, args = u :: v.toList → Blames P w (f u v)) :
    Blames P w (Argument.unaryOrBinary name f args) := by
  unfold Argument.unaryOrBinary
  split
  · exact hf _ none rfl
  · exact hf _ (some _) rfl
  · exact miscounted _ _ _

theorem binaryOrTernary (name : String) {f : Value → Value → Option Value → Run Value}
    {args : List Value} (hf : ∀ t u v, args = t :: u :: v.toList → Blames P w (f t u v)) :
    Blames P w (Argument.binaryOrTernary name f args) := by
  unfold Argument.binaryOrTernary
  split
  · exact hf _ _ none rfl
  · exact hf _ _ (some _) rfl
  · exact miscounted _ _ _

theorem oneOrMore (name : String) {f : Value → List Value → Run Value} {args : List Value}
    (hf : ∀ v vs, args = v :: vs → Blames P w (f v vs)) :
    Blames P w (Argument.oneOrMore name f args) := by
  unfold Argument.oneOrMore
  split
  · exact hf _ _ rfl
  · exact miscounted _ _ _

theorem twoOrMore (name : String) {f : Value → Value → List Value → Run Value} {args : List Value}
    (hf : ∀ u v vs, args = u :: v :: vs → Blames P w (f u v vs)) :
    Blames P w (Argument.twoOrMore name f args) := by
  unfold Argument.twoOrMore
  split
  · exact hf _ _ _ rfl
  · exact miscounted _ _ _

end

end Run.Blames

end TemplateLisp
