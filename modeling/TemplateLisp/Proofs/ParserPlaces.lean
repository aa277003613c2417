import TemplateLisp.Proofs.Places
import TemplateLisp.Proofs.Reading

/-!
# What the parser makes of places, steps and later tokens

The parser only passes places on, and more steps or room than it needs change nothing. `Parser.Moves
f g x y` says both at once: `y` is `x` with its places moved by `f`, or `x` ran out.
`Parser.movesAt` takes it through the parser by induction on the steps, with one lemma for each way
in which a reading is put together, and `Parser.all_moves` takes it through programs.

A reading that succeeds has decoded every token that it used (`Parser.consumesAt`), so the trees
that it found are read again wherever their tokens stand (`Parser.all_row`). For whole texts
`read_ok` puts this together.
-/

namespace TemplateLisp

namespace Parser

open TemplateLisp.Derivation (tokensAll)

/-! ## Moving the places of an outcome -/

section
variable {α β : Type}

/-- The outcome of a reading with its places moved; `g` moves what was read. -/
def movedOutcome (f : Pos → Pos) (g : α → β) : Except ReadFailure α → Except ReadFailure β
  | .ok a => .ok (g a)
  | .error e => .error (e.moved f)

/-- `y` is `x` with its places moved, unless `x` is out of steps. -/
def Moves (f : Pos → Pos) (g : α → α) (x y : Except ReadFailure α) : Prop :=
  x = .error .tooDeep ∨ y = movedOutcome f g x

variable {f : Pos → Pos} {g : α → α}

theorem Moves.outOfSteps (y : Except ReadFailure α) : Moves f g (.error .tooDeep) y := .inl rfl

theorem Moves.bind {h : β → β} {x y : Except ReadFailure α} {k k' : α → Except ReadFailure β}
    (hxy : Moves f g x y) (hk : ∀ a, Moves f h (k a) (k' (g a))) :
    Moves f h (x >>= k) (y >>= k') := by
  rcases hxy with rfl | rfl
  · exact .inl rfl
  · cases x with
    | error e => exact .inr rfl
    | ok a => exact hk a

theorem Moves.ite {c : Prop} [Decidable c] {x y x' y' : Except ReadFailure α} (hx : Moves f g x x')
    (hy : Moves f g y y') : Moves f g (if c then x else y) (if c then x' else y') := by
  split
  · exact hx
  · exact hy

theorem Moves.faultAt {s s' : SyntaxFault} (hs : s' = s.moved f) (t : Token) :
    Moves f g (faultAt s t) (faultAt s' (t.moved f)) := by
  subst hs
  exact .inr rfl

theorem Moves.atEnd (ending : Option (SyntaxFault × Pos)) {s : SyntaxFault} (hs : s.moved f = s)
    (t : Token) : Moves f g (atEnd ending (.fault s (some t.pos)))
      (atEnd (movedEnding f ending) (.fault s (some (t.moved f).pos))) := by
  cases ending with
  | none =>
    exact .inr
      (by simp [Parser.atEnd, movedEnding, movedOutcome, ReadFailure.moved, hs, Token.moved])
  | some e => exact .inr rfl

end

section
variable (f : Pos → Pos)

/-- A datum and the tokens behind it, moved. -/
def movedForm (r : Datum × List Token) : Datum × List Token :=
  (r.1.moved f, r.2.map (Token.moved f))

/-- The elements of a list, its tail and the tokens behind it, moved. -/
def movedItems (r : (List Datum × Datum) × List Token) : (List Datum × Datum) × List Token :=
  ((r.1.1.map (Datum.moved f), r.1.2.moved f), r.2.map (Token.moved f))

/-! ## Leaves and brackets -/

theorem isAtom_of_parse {text : String} {d : Datum} (h : Atom.parse text = .ok d) :
    d.isAtom = true := by
  unfold Atom.parse at h
  dsimp only at h
  repeat' split at h
  all_goals cases h
  all_goals rfl

theorem atom_moves (t : Token) (ts : List Token) :
    Moves f (movedForm f) ((atom t).map (·, ts))
      ((atom (t.moved f)).map (·, ts.map (Token.moved f))) := by
  refine .inr ?_
  simp only [atom, Token.moved]
  cases hparse : Atom.parse t.text with
  | ok d =>
    have hsame : d.moved f = d := Datum.moved_of_isAtom f (isAtom_of_parse hparse)
    simp [Except.map, movedOutcome, movedForm, hsame]
  | error e => cases e <;> rfl

theorem string_moves (t : Token) (ts : List Token) :
    Moves f (movedForm f) ((string t).map (·, ts))
      ((string (t.moved f)).map (·, ts.map (Token.moved f))) := by
  refine .inr ?_
  simp only [string, Token.moved]
  cases StringLiteral.decode t.text with
  | ok codes =>
    have hsame := Datum.moved_of_isAtom f (Datum.isAtom_ofCodes codes)
    simp [Except.map, movedOutcome, movedForm, hsame]
  | error e => cases e <;> rfl

theorem pairUp_moved (ds : List Datum) :
    pairUp (ds.map (Datum.moved f)) = Datum.movedEntries f (pairUp ds) := by
  induction ds using pairUp.induct with
  | case1 k v ds ih =>
    show (k.moved f, v.moved f) :: pairUp (ds.map (Datum.moved f)) = _
    rw [ih]
    rfl
  | case2 ds hshort =>
    cases ds with
    | nil => rfl
    | cons d ds =>
      cases ds with
      | nil => rfl
      | cons v ds => exact (hshort d v ds rfl).elim

theorem mapOf_moved (opener : Token) (done es : List (Datum × Datum)) :
    mapOf (opener.moved f) (Datum.movedEntries f done) (Datum.movedEntries f es) =
      movedOutcome f (Datum.moved f) (mapOf opener done es) := by
  induction es generalizing done with
  | nil => rfl
  | cons e es ih =>
    obtain ⟨k, v⟩ := e
    rw [Datum.movedEntries, Datum.movedEntry, mapOf, mapOf, Datum.isAtom_moved,
      Datum.putEntry_moved, ih]
    split
    · rfl
    · rw [Datum.shown_moved]
      rfl

theorem enclosed_moved (opener : Token) (ds : List Datum) (tail : Datum) :
    enclosed (opener.moved f) (ds.map (Datum.moved f)) (tail.moved f) =
      movedOutcome f (Datum.moved f) (enclosed opener ds tail) := by
  have hkind : (opener.moved f).kind = opener.kind := rfl
  have hlist : Datum.ofList (some (opener.moved f).pos) (tail.moved f) (ds.map (Datum.moved f)) =
      (Datum.ofList (some opener.pos) tail ds).moved f :=
    (Datum.moved_ofList f (some opener.pos) tail ds).symm
  rw [enclosed, enclosed, hkind, hlist]
  cases opener.kind with
  | openBracket => simp [movedOutcome, Datum.moved, Datum.movedAll_eq_map]
  | openBrace =>
    dsimp only
    rw [List.length_map]
    split
    · rfl
    · rw [pairUp_moved]
      exact mapOf_moved f opener [] (pairUp ds)
  | _ => rfl

/-! ## The parser -/

/-- The step behind a quote mark, for any room. -/
theorem quoted_enter (ending : Option (SyntaxFault × Pos)) (n : Nat) (room : Room) (mark t : Token)
    (ts : List Token) :
    quoted ending (n + 1) room mark (t :: ts) =
      if t.kind.isCloser then faultAt (.formExpectedAfter mark.text) mark
      else
        match room.enter? with
        | none => .error .tooDeep
        | some room => do
          let (d, rest) ← form ending n room (t :: ts)
          return (Datum.ofList (some mark.pos) .nil [.sym (quoteSymbol mark.text), d], rest) :=
  (quoted.eq_def ending (n + 1) room mark (t :: ts)).trans rfl

/-- The step behind an opening bracket, for any room. -/
theorem bracketed_enter (ending : Option (SyntaxFault × Pos)) (n : Nat) (room : Room)
    (opener : Token) (ts : List Token) :
    bracketed ending (n + 1) room opener ts =
      match room.enter? with
      | none => .error .tooDeep
      | some room => do
        let ((found, tail), rest) ← items ending n room opener [] ts
        return (← enclosed opener found tail, rest) := by
  rw [bracketed.eq_def]
  cases room.enter? with
  | none => rfl
  | some room => rfl

/-- With `m` steps and room without bound the parser does at moved places what it does with `n`
steps and some room, unless these are too few. -/
structure MovesAt (n m : Nat) : Prop where
  form : ∀ ending room ts, Moves f (movedForm f) (form ending n room ts)
    (form (movedEnding f ending) m .unbounded (ts.map (Token.moved f)))
  quoted : ∀ ending room mark ts, Moves f (movedForm f) (quoted ending n room mark ts)
    (quoted (movedEnding f ending) m .unbounded (mark.moved f) (ts.map (Token.moved f)))
  bracketed : ∀ ending room opener ts, Moves f (movedForm f) (bracketed ending n room opener ts)
    (bracketed (movedEnding f ending) m .unbounded (opener.moved f) (ts.map (Token.moved f)))
  items : ∀ ending room opener found ts,
    Moves f (movedItems f) (items ending n room opener found ts)
      (items (movedEnding f ending) m .unbounded (opener.moved f) (found.map (Datum.moved f))
        (ts.map (Token.moved f)))

variable {f} {n m : Nat} (h : MovesAt f n m) (ending : Option (SyntaxFault × Pos)) (room : Room)
include h

theorem MovesAt.form_succ (ts : List Token) :
    Moves f (movedForm f) (Parser.form ending (n + 1) room ts)
      (Parser.form (movedEnding f ending) (m + 1) .unbounded (ts.map (Token.moved f))) := by
  cases ts with
  | nil =>
    cases ending with
    | none => exact .inr rfl
    | some e => exact .inr rfl
  | cons t ts =>
    rw [List.map_cons, form_cons, form_cons]
    have hkind : (t.moved f).kind = t.kind := rfl
    rw [hkind]
    cases t.kind with
    | symbol => exact atom_moves f t ts
    | string => exact string_moves f t ts
    | quote | unquote => exact h.quoted ending room t ts
    | openParen | openBracket | openBrace => exact h.bracketed ending room t ts
    | closeParen | closeBracket | closeBrace => exact .faultAt rfl t

theorem MovesAt.quoted_succ (mark : Token) (ts : List Token) :
    Moves f (movedForm f) (Parser.quoted ending (n + 1) room mark ts)
      (Parser.quoted (movedEnding f ending) (m + 1) .unbounded (mark.moved f)
        (ts.map (Token.moved f))) := by
  cases ts with
  | nil => exact .atEnd ending rfl mark
  | cons t ts =>
    rw [List.map_cons, quoted_enter, quoted_cons]
    refine .ite (.faultAt rfl mark) ?_
    cases room.enter? with
    | none => exact .outOfSteps _
    | some room => exact .bind (h.form ending room (t :: ts)) fun r => .inr rfl

theorem MovesAt.bracketed_succ (opener : Token) (ts : List Token) :
    Moves f (movedForm f) (Parser.bracketed ending (n + 1) room opener ts)
      (Parser.bracketed (movedEnding f ending) (m + 1) .unbounded (opener.moved f)
        (ts.map (Token.moved f))) := by
  rw [bracketed_enter, Parser.bracketed_succ]
  cases room.enter? with
  | none => exact .outOfSteps _
  | some room =>
    refine .bind (h.items ending room opener [] ts) fun r => ?_
    exact .bind (.inr (enclosed_moved f opener r.1.1 r.1.2)) fun d => .inr rfl

omit h in
/-- What follows the tail of a dotted list. -/
theorem moves_afterTail (opener : Token) (found : List Datum) (r : Datum × List Token) :
    Moves f (movedItems f)
      (match r.2 with
        | [] => atEnd ending (.fault (.unmatched opener.text) (some opener.pos))
        | closer :: rest =>
          if (!closer.kind.isCloser) = true then faultAt .closerExpectedAfterTail closer
          else if closes opener.kind closer.kind then .ok ((found.reverse, r.1), rest)
          else faultAt (mismatch opener closer) closer)
      (match (movedForm f r).2 with
        | [] => atEnd (movedEnding f ending)
            (.fault (.unmatched (opener.moved f).text) (some (opener.moved f).pos))
        | closer :: rest =>
          if (!closer.kind.isCloser) = true then faultAt .closerExpectedAfterTail closer
          else if closes (opener.moved f).kind closer.kind then
            .ok (((found.map (Datum.moved f)).reverse, (movedForm f r).1), rest)
          else faultAt (mismatch (opener.moved f) closer) closer) := by
  obtain ⟨d, rest⟩ := r
  cases rest with
  | nil => exact .atEnd ending rfl opener
  | cons closer rest =>
    refine .ite (.faultAt rfl closer) (.ite (.inr ?_) (.faultAt rfl closer))
    simp [movedOutcome, movedItems, movedForm]

theorem MovesAt.items_succ (opener : Token) (found : List Datum) (ts : List Token) :
    Moves f (movedItems f) (Parser.items ending (n + 1) room opener found ts)
      (Parser.items (movedEnding f ending) (m + 1) .unbounded (opener.moved f)
        (found.map (Datum.moved f)) (ts.map (Token.moved f))) := by
  cases ts with
  | nil => exact .atEnd ending rfl opener
  | cons t ts =>
    rw [List.map_cons, items_cons, items_cons]
    refine .ite (.ite (.inr ?_) (.faultAt rfl t)) (.ite ?_ ?_)
    · simp [movedOutcome, movedItems, Datum.moved]
    · rw [List.isEmpty_map]
      refine .ite (.faultAt rfl t) ?_
      cases ts with
      | nil => exact .atEnd ending rfl opener
      | cons u us =>
        exact .bind (h.form ending room (u :: us)) fun r => moves_afterTail ending opener found r
    · exact .bind (h.form ending room (t :: ts)) fun r =>
        h.items ending room opener (r.1 :: found) r.2

end

/-- More steps, more room and other places change nothing but places. -/
theorem movesAt (f : Pos → Pos) {n m : Nat} (hle : n ≤ m) : MovesAt f n m := by
  induction n generalizing m with
  | zero =>
    exact ⟨fun _ _ _ => .outOfSteps _, fun _ _ _ _ => .outOfSteps _,
      fun _ _ _ _ => .outOfSteps _, fun _ _ _ _ _ => .outOfSteps _⟩
  | succ n ih =>
    obtain ⟨m, rfl⟩ : ∃ k, m = k + 1 := ⟨m - 1, by omega⟩
    have h := ih (show n ≤ m by omega)
    exact ⟨h.form_succ, h.quoted_succ, h.bracketed_succ, h.items_succ⟩

/-- Programs: what is read behind other data comes after these. -/
theorem all_moves (f : Pos → Pos) (ending : Option (SyntaxFault × Pos)) (room : Room)
    {steps steps' fuel fuel' : Nat} (hsteps : steps ≤ steps') (hfuel : fuel ≤ fuel')
    (base found : List Datum) (ts : List Token) :
    Moves f (fun ds => base ++ ds.map (Datum.moved f))
      (all ending room steps fuel found ts)
      (all (movedEnding f ending) .unbounded steps' fuel'
        (found.map (Datum.moved f) ++ base.reverse) (ts.map (Token.moved f))) := by
  induction fuel generalizing fuel' found ts with
  | zero => exact .outOfSteps _
  | succ n ih =>
    obtain ⟨m, rfl⟩ : ∃ k, fuel' = k + 1 := ⟨fuel' - 1, by omega⟩
    cases ts with
    | nil =>
      cases ending with
      | none => exact .inr (by simp [all, movedEnding, movedOutcome])
      | some e => exact .inr rfl
    | cons t ts =>
      rw [List.map_cons, all, all]
      exact .bind ((movesAt f hsteps).form ending room (t :: ts)) fun r =>
        ih (show n ≤ m by omega) (r.1 :: found) r.2

/-! ## The tokens that a reading uses -/

/-- Behind the tokens `ts` come the tokens `rest`, and those between can be decoded. -/
def Consumed (ts rest : List Token) : Prop :=
  ∃ used, ts = used ++ rest ∧ ∀ t ∈ used, t.Decodable

section
variable {t : Token} {ts us rest : List Token}

theorem Consumed.refl (ts : List Token) : Consumed ts ts := ⟨[], rfl, by simp⟩

theorem Consumed.cons (ht : t.Decodable) (h : Consumed ts rest) : Consumed (t :: ts) rest := by
  obtain ⟨used, rfl, hused⟩ := h
  exact ⟨t :: used, rfl, List.forall_mem_cons.2 ⟨ht, hused⟩⟩

theorem Consumed.trans (h : Consumed ts us) (h' : Consumed us rest) : Consumed ts rest := by
  obtain ⟨used, rfl, hused⟩ := h
  obtain ⟨used', rfl, hused'⟩ := h'
  exact ⟨used ++ used', (List.append_assoc ..).symm, List.forall_mem_append.2 ⟨hused, hused'⟩⟩

theorem decodable_of_closer (h : t.kind.isCloser = true) : t.Decodable := by
  refine decodable_of_ne ?_ ?_ <;> rintro hkind <;> rw [hkind] at h <;> cases h

theorem decodable_of_isDot {opener : Token} (h : isDot opener t = true) : t.Decodable := by
  obtain ⟨⟨-, hkind⟩, htext⟩ : (opener.kind = .openParen ∧ t.kind = .symbol) ∧ t.text = "." := by
    simpa [isDot] using h
  refine ⟨fun _ n hparse => ?_, fun hstring => ?_⟩
  · rw [htext] at hparse
    cases hparse
  · rw [hkind] at hstring
    cases hstring

end

theorem bind_eq_ok {α β : Type} {x : Except ReadFailure α} {k : α → Except ReadFailure β} {b : β}
    (h : x >>= k = .ok b) : ∃ a, x = .ok a ∧ k a = .ok b := by
  cases x with
  | error e => cases h
  | ok a => exact ⟨a, rfl, h⟩

/-- A reading with `n` steps that succeeds has decoded the tokens that it used. -/
structure ConsumesAt (n : Nat) : Prop where
  form : ∀ {ending ts d rest}, form ending n .unbounded ts = .ok (d, rest) → Consumed ts rest
  quoted : ∀ {ending mark ts d rest}, quoted ending n .unbounded mark ts = .ok (d, rest) →
    Consumed ts rest
  bracketed : ∀ {ending opener ts d rest}, bracketed ending n .unbounded opener ts = .ok (d, rest) →
    Consumed ts rest
  items : ∀ {ending opener found ts r rest}, items ending n .unbounded opener found ts =
    .ok (r, rest) →
    Consumed ts rest

section
variable {n : Nat} (h : ConsumesAt n) {ending : Option (SyntaxFault × Pos)} {ts rest : List Token}
include h

theorem ConsumesAt.form_succ {d : Datum}
    (hform : Parser.form ending (n + 1) .unbounded ts = .ok (d, rest)) : Consumed ts rest := by
  cases ts with
  | nil => cases ending <;> cases hform
  | cons t ts =>
    rw [form_cons] at hform
    have hbracket (hkind : t.kind ≠ .symbol ∧ t.kind ≠ .string) (hts : Consumed ts rest) :
        Consumed (t :: ts) rest := .cons (decodable_of_ne hkind.1 hkind.2) hts
    cases hkind : t.kind with
    | symbol =>
      rw [hkind] at hform
      cases hparse : Atom.parse t.text with
      | ok x =>
        simp only [atom, hparse, Except.map, Except.ok.injEq, Prod.mk.injEq] at hform
        obtain ⟨-, rfl⟩ := hform
        refine .cons ⟨fun _ n herror => ?_, fun hstring => ?_⟩ (.refl ts)
        · cases hparse.symm.trans herror
        · rw [hkind] at hstring
          cases hstring
      | error e => cases e <;> simp [atom, hparse, Except.map, faultAt] at hform
    | string =>
      rw [hkind] at hform
      cases hdecode : StringLiteral.decode t.text with
      | ok x =>
        simp only [string, hdecode, Except.map, Except.ok.injEq, Prod.mk.injEq] at hform
        obtain ⟨-, rfl⟩ := hform
        refine .cons ⟨fun hsymbol => ?_, fun _ herror => ?_⟩ (.refl ts)
        · rw [hkind] at hsymbol
          cases hsymbol
        · cases hdecode.symm.trans herror
      | error e => cases e <;> simp [string, hdecode, Except.map, faultAt] at hform
    | quote | unquote =>
      rw [hkind] at hform
      exact hbracket (by rw [hkind]; decide) (h.quoted hform)
    | openParen | openBracket | openBrace =>
      rw [hkind] at hform
      exact hbracket (by rw [hkind]; decide) (h.bracketed hform)
    | closeParen | closeBracket | closeBrace =>
      rw [hkind] at hform
      cases hform

theorem ConsumesAt.quoted_succ {mark : Token} {d : Datum}
    (hquoted : Parser.quoted ending (n + 1) .unbounded mark ts = .ok (d, rest)) :
    Consumed ts rest := by
  cases ts with
  | nil => cases ending <;> cases hquoted
  | cons t ts =>
    rw [quoted_cons] at hquoted
    split at hquoted
    · cases hquoted
    · obtain ⟨r, hform, hr⟩ := bind_eq_ok hquoted
      cases hr
      exact h.form hform

theorem ConsumesAt.bracketed_succ {opener : Token} {d : Datum}
    (hbracketed : Parser.bracketed ending (n + 1) .unbounded opener ts = .ok (d, rest)) :
    Consumed ts rest := by
  rw [Parser.bracketed_succ] at hbracketed
  obtain ⟨r, hitems, hr⟩ := bind_eq_ok hbracketed
  obtain ⟨x, -, hx⟩ := bind_eq_ok hr
  cases hx
  exact h.items hitems

theorem ConsumesAt.items_succ {opener : Token} {found : List Datum} {r : List Datum × Datum}
    (hitems : Parser.items ending (n + 1) .unbounded opener found ts = .ok (r, rest)) :
    Consumed ts rest := by
  cases ts with
  | nil => cases ending <;> cases hitems
  | cons t ts =>
    rw [items_cons] at hitems
    split at hitems
    · rename_i hcloser
      split at hitems
      · cases hitems
        exact .cons (decodable_of_closer hcloser) (.refl rest)
      · cases hitems
    split at hitems
    · rename_i hdot
      split at hitems
      · cases hitems
      cases ts with
      | nil => cases ending <;> cases hitems
      | cons u us =>
        obtain ⟨⟨d, left⟩, hform, htail⟩ := bind_eq_ok hitems
        cases left with
        | nil => cases ending <;> cases htail
        | cons closer left =>
          dsimp only at htail
          split at htail
          · cases htail
          rename_i hcloser
          split at htail
          · cases htail
            exact .cons (decodable_of_isDot hdot) ((h.form hform).trans
              (.cons (decodable_of_closer (by simpa using hcloser)) (.refl rest)))
          · cases htail
    · obtain ⟨⟨d, left⟩, hform, hmore⟩ := bind_eq_ok hitems
      exact (h.form hform).trans (h.items hmore)

end

theorem consumesAt (n : Nat) : ConsumesAt n := by
  induction n with
  | zero => exact ⟨nofun, nofun, nofun, nofun⟩
  | succ n ih => exact ⟨ih.form_succ, ih.quoted_succ, ih.bracketed_succ, ih.items_succ⟩

/-- All tokens of a program that is read can be decoded. -/
theorem all_decodable {ending : Option (SyntaxFault × Pos)} {steps fuel : Nat}
    {found ds : List Datum} {ts : List Token}
    (h : all ending .unbounded steps fuel found ts = .ok ds) : ∀ t ∈ ts, t.Decodable := by
  induction fuel generalizing found ts with
  | zero => cases h
  | succ n ih =>
    cases ts with
    | nil => simp
    | cons t ts =>
      rw [all] at h
      obtain ⟨⟨d, rest⟩, hform, hrest⟩ := bind_eq_ok h
      obtain ⟨used, hused, hdecodable⟩ := (consumesAt steps).form hform
      rw [hused]
      exact List.forall_mem_append.2 ⟨hdecodable, ih hrest⟩

/-! ## Trees in front of other tokens -/

/-- The parser goes through the trees of a program and is left with steps for what follows. -/
theorem all_row {ending : Option (SyntaxFault × Pos)} {steps fuel left : Nat}
    {forest : List Derivation} (hvalid : ∀ d ∈ forest, d.Valid)
    (hdecodable : ∀ t ∈ tokensAll forest, t.Decodable)
    (hsteps : 3 * (tokensAll forest).length ≤ steps)
    (hfuel : (tokensAll forest).length + left ≤ fuel) (found : List Datum) (rest : List Token) :
    ∃ fuel', left ≤ fuel' ∧ all ending .unbounded steps fuel found (tokensAll forest ++ rest) =
      all ending .unbounded steps fuel' ((forest.map Derivation.datum).reverse ++ found) rest := by
  induction forest generalizing found fuel with
  | nil => exact ⟨fuel, by simpa [tokensAll] using hfuel, rfl⟩
  | cons d forest ih =>
    obtain ⟨t, ts, ht, -⟩ := (hvalid d (.head _)).head
    have hpos : 1 ≤ d.tokens.length := by rw [ht]; simp
    simp only [tokensAll, List.length_append] at hsteps hfuel
    obtain ⟨n, rfl⟩ : ∃ n, fuel = n + 1 := ⟨fuel - 1, by omega⟩
    rw [tokensAll, List.forall_mem_append] at hdecodable
    have hreads : Reads ending d := form_complete (hvalid d (.head _)) hdecodable.1
    have hform := hreads steps (tokensAll forest ++ rest) (by omega)
    obtain ⟨fuel', hle, hrest⟩ := ih (fun x hx => hvalid x (.tail _ hx)) hdecodable.2 (by omega)
      (show (tokensAll forest).length + left ≤ n by omega) (d.datum :: found)
    refine ⟨fuel', hle, ?_⟩
    rw [tokensAll, List.append_assoc, List.map_cons, List.reverse_cons, List.append_assoc]
    rw [ht, List.cons_append] at hform ⊢
    rw [all, hform]
    exact hrest

end Parser

/-! ## Whole texts -/

/-- A text that is read is the text of a derivation, all of whose tokens can be decoded. -/
theorem read_ok {source : String} {ds : List Datum} (h : read .unbounded source = .ok ds) :
    (lex source.toList).fault = none ∧ (∀ t ∈ (lex source.toList).tokens, t.Decodable) ∧
      ∃ forest, Derivation.Derives forest (lex source.toList).tokens ∧
        ds = forest.map Derivation.datum := by
  have houtcome := read_outcome source
  rw [h] at houtcome
  exact ⟨houtcome.1, Parser.all_decodable h, houtcome.2⟩

/-- What is read in some room is read where nesting has no bound. -/
theorem read_unbounded {room : Room} {source : String} {ds : List Datum}
    (h : read room source = .ok ds) : read .unbounded source = .ok ds := by
  have hending (ending : Option (SyntaxFault × Pos)) : movedEnding id ending = ending := by
    cases ending with
    | none => rfl
    | some e =>
      obtain ⟨fault, pos⟩ := e
      cases fault <;> rfl
  have htokens (ts : List Token) : ts.map (Token.moved id) = ts := List.map_id ts
  have hdata (ds : List Datum) : ds.map (Datum.moved id) = ds :=
    (List.map_congr_left fun d _ => Datum.moved_id d).trans (List.map_id ds)
  have hmoves := Parser.all_moves id (lex source.toList).fault room
    (Nat.le_refl (Parser.fuelFor (lex source.toList).tokens))
    (Nat.le_refl ((lex source.toList).tokens.length + 1)) [] [] (lex source.toList).tokens
  rw [hending, htokens] at hmoves
  rcases hmoves with hdeep | hmoved
  · cases h.symm.trans hdeep
  · have hread : read .unbounded source = Parser.movedOutcome id
        (fun ds => [] ++ ds.map (Datum.moved id)) (read room source) := hmoved
    rw [hread, h, Parser.movedOutcome, List.nil_append, hdata]

/-- Where nesting has no bound, reading never runs out of steps. -/
theorem read_ne_tooDeep (source : String) : read .unbounded source ≠ .error .tooDeep := by
  intro h
  rcases read_failure h with ⟨_, _, hf⟩ | ⟨_, hf, -⟩ <;> cases hf

end TemplateLisp
