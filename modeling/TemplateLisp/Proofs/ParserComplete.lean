import TemplateLisp.Proofs.Grammar

/-!
# The parser reads the grammar

`Parser.form_complete`: the parser reads the tokens of every tree of the grammar as the datum of the
tree and stops right behind them. `Parser.all_complete`: it reads every derivation to its end.

The steps that `Parser.fuelFor` allows are enough because each token pays for three: one to begin a
form, one to enter it and one to go on behind it. Nesting is without bound throughout.
-/

namespace TemplateLisp

/-- The body of a string token does not end in a backslash, which the lexer excludes. -/
def Token.Terminated (t : Token) : Prop :=
  t.kind = .string → StringLiteral.decode t.text ≠ .error .openEscape

/-- What the lexer and the limit on literals exclude: a symbol token is no integer with too many
digits, and a string token is terminated. -/
def Token.Decodable (t : Token) : Prop :=
  (t.kind = .symbol → ∀ n, Atom.parse t.text ≠ .error (.tooManyDigits n)) ∧ t.Terminated

namespace Parser

open TemplateLisp.Derivation (tokens tokensAll datumAll)

/-! ## Steps of the parser -/

section
variable (ending : Option (SyntaxFault × Pos)) (n : Nat)

/-- The step on the first token of a form. -/
theorem form_cons (room : Room) (t : Token) (ts : List Token) :
    form ending (n + 1) room (t :: ts) = match t.kind with
      | .symbol => (atom t).map (·, ts)
      | .string => (string t).map (·, ts)
      | .quote => quoted ending n room t ts
      | .unquote => quoted ending n room t ts
      | .openParen => bracketed ending n room t ts
      | .openBracket => bracketed ending n room t ts
      | .openBrace => bracketed ending n room t ts
      | _ => faultAt (.unexpectedToken t.text) t :=
  (form.eq_def ending (n + 1) room (t :: ts)).trans rfl

/-- The step behind a quote mark. -/
theorem quoted_cons (mark t : Token) (ts : List Token) :
    quoted ending (n + 1) .unbounded mark (t :: ts) =
      if t.kind.isCloser then faultAt (.formExpectedAfter mark.text) mark
      else do
        let (d, rest) ← form ending n .unbounded (t :: ts)
        return (Datum.ofList (some mark.pos) .nil [.sym (quoteSymbol mark.text), d], rest) :=
  (quoted.eq_def ending (n + 1) .unbounded mark (t :: ts)).trans rfl

/-- The step behind an opening bracket. -/
theorem bracketed_succ (opener : Token) (ts : List Token) :
    bracketed ending (n + 1) .unbounded opener ts = (do
      let ((found, tail), rest) ← items ending n .unbounded opener [] ts
      return (← enclosed opener found tail, rest)) :=
  (bracketed.eq_def ending (n + 1) .unbounded opener ts).trans rfl

/-- The step on a token between brackets. -/
theorem items_cons (room : Room) (opener t : Token) (found : List Datum) (ts : List Token) :
    items ending (n + 1) room opener found (t :: ts) =
      if t.kind.isCloser then
        if closes opener.kind t.kind then .ok ((found.reverse, .nil), ts)
        else faultAt (mismatch opener t) t
      else if isDot opener t then
        if found.isEmpty then faultAt .nothingBeforeDot t
        else
          match ts with
          | [] => atEnd ending (.fault (.unmatched opener.text) (some opener.pos))
          | u :: us => do
            let (d, rest) ← form ending n room (u :: us)
            match rest with
            | [] => atEnd ending (.fault (.unmatched opener.text) (some opener.pos))
            | closer :: rest =>
              if (!closer.kind.isCloser) = true then faultAt .closerExpectedAfterTail closer
              else if closes opener.kind closer.kind then .ok ((found.reverse, d), rest)
              else faultAt (mismatch opener closer) closer
      else (do
        let (d, rest) ← form ending n room (t :: ts)
        items ending n room opener (d :: found) rest) :=
  (items.eq_def ending (n + 1) room opener found (t :: ts)).trans rfl

end

/-- A bracket is closed by the bracket of its own kind. -/
theorem closes_cases {o c : TokenKind} (h : closes o c = true) :
    (o = .openParen ∧ c = .closeParen) ∨ (o = .openBracket ∧ c = .closeBracket) ∨
      (o = .openBrace ∧ c = .closeBrace) := by
  unfold closes at h
  split at h <;> simp_all

/-! ## Leaves -/

theorem atom_eq {t : Token} (hkind : t.kind = .symbol) (ht : t.Decodable)
    (hspelt : Atom.parse t.text ≠ .error .malformedNumber) :
    atom t = .ok (Derivation.atomDatum t) := by
  have hdigits := ht.1 hkind
  unfold atom Derivation.atomDatum
  cases h : Atom.parse t.text with
  | ok d => rfl
  | error f =>
    cases f with
    | malformedNumber => exact absurd h hspelt
    | tooManyDigits n => exact absurd h (hdigits n)

theorem string_eq {t : Token} (hkind : t.kind = .string) (ht : t.Terminated)
    (hescapes : ∀ digits, StringLiteral.decode t.text ≠ .error (.badUnicodeEscape digits)) :
    string t = .ok (Derivation.stringDatum t) := by
  have hopen := ht hkind
  unfold string Derivation.stringDatum
  cases h : StringLiteral.decode t.text with
  | ok d => rfl
  | error f =>
    cases f with
    | badUnicodeEscape digits => exact absurd h (hescapes digits)
    | openEscape => exact absurd h hopen

/-! ## Maps -/

theorem pairUp_flatten (es : List (Derivation × Derivation)) :
    pairUp (datumAll (Derivation.flatten es)) = Derivation.datumEntries es := by
  induction es with
  | nil => rfl
  | cons e es ih =>
    obtain ⟨k, v⟩ := e
    show (k.datum, v.datum) :: pairUp (datumAll (Derivation.flatten es)) = _
    rw [ih, Derivation.datumEntries, Derivation.datumEntry]

theorem length_flatten (es : List (Derivation × Derivation)) :
    (Derivation.flatten es).length = 2 * es.length := by
  induction es with
  | nil => rfl
  | cons e es ih =>
    show (Derivation.flatten es).length + 2 = 2 * (es.length + 1)
    omega

theorem mapOf_atoms (opener : Token) (done : List (Datum × Datum)) (es : List (Datum × Datum))
    (hkeys : ∀ e ∈ es, e.1.isAtom = true) :
    mapOf opener done es = .ok (.map (es.foldl (fun es e => Datum.putEntry e.1 e.2 es) done)) := by
  induction es generalizing done with
  | nil => rfl
  | cons e es ih =>
    obtain ⟨k, v⟩ := e
    have hk : k.isAtom = true := hkeys (k, v) (.head _)
    rw [mapOf, if_pos hk, ih _ fun e he => hkeys e (.tail _ he), List.foldl_cons]

theorem datumEntries_keys {es : List (Derivation × Derivation)}
    (hkeys : ∀ e ∈ es, e.1.datum.isAtom = true) :
    ∀ e ∈ Derivation.datumEntries es, e.1.isAtom = true := by
  induction es with
  | nil => exact fun _ h => nomatch h
  | cons e es ih =>
    obtain ⟨k, v⟩ := e
    intro x hx
    rw [Derivation.datumEntries, Derivation.datumEntry] at hx
    cases hx with
    | head => exact hkeys (k, v) (.head _)
    | tail _ hx => exact ih (fun e he => hkeys e (.tail _ he)) x hx

theorem enclosed_map {opener : Token} (hopen : opener.kind = .openBrace)
    {es : List (Derivation × Derivation)} (hkeys : ∀ e ∈ es, e.1.datum.isAtom = true) :
    enclosed opener (datumAll (Derivation.flatten es)) .nil =
      .ok (.map (Derivation.written (Derivation.datumEntries es))) := by
  have hlength : (datumAll (Derivation.flatten es)).length = 2 * es.length := by
    rw [Derivation.datumAll_eq_map, List.length_map, length_flatten]
  unfold enclosed
  rw [hopen]
  dsimp only
  rw [if_neg (by omega), pairUp_flatten, mapOf_atoms opener [] _ (datumEntries_keys hkeys)]
  rfl

/-! ## Completeness -/

section
variable {ending : Option (SyntaxFault × Pos)}

/-- The parser reads the tree wherever it stands, with three steps for each of its tokens. -/
def Reads (ending : Option (SyntaxFault × Pos)) (d : Derivation) : Prop :=
  ∀ (fuel : Nat) (rest : List Token), 3 * d.tokens.length ≤ fuel →
    form ending fuel .unbounded (d.tokens ++ rest) = .ok (d.datum, rest)

/-- The parser goes through a row of trees and is left with steps for what follows. -/
theorem items_row {opener : Token} {ds : List Derivation} (hreads : ∀ d ∈ ds, Reads ending d)
    (hvalid : ∀ d ∈ ds, d.Valid)
    (hdot : ∀ d ∈ ds, ∀ t ts, d.tokens = t :: ts → isDot opener t = false)
    {steps fuel : Nat} (hsteps : 1 ≤ steps) (hfuel : 3 * (tokensAll ds).length + steps ≤ fuel)
    (found : List Datum) (rest : List Token) :
    ∃ left, steps ≤ left ∧ items ending fuel .unbounded opener found (tokensAll ds ++ rest) =
      items ending left .unbounded opener ((datumAll ds).reverse ++ found) rest := by
  induction ds generalizing fuel found with
  | nil => exact ⟨fuel, by simpa [tokensAll] using hfuel, rfl⟩
  | cons d ds ih =>
    obtain ⟨t, ts, ht, hopen⟩ := (hvalid d (.head _)).head
    have hlength : (tokensAll (d :: ds)).length = d.tokens.length + (tokensAll ds).length := by
      rw [tokensAll, List.length_append]
    have hpos : 1 ≤ d.tokens.length := by rw [ht]; simp
    obtain ⟨n, rfl⟩ : ∃ n, fuel = n + 1 := ⟨fuel - 1, by omega⟩
    have hform := hreads d (.head _) n (tokensAll ds ++ rest) (by omega)
    obtain ⟨left, hleft, hitems⟩ := ih (fun x hx => hreads x (.tail _ hx))
      (fun x hx => hvalid x (.tail _ hx)) (fun x hx => hdot x (.tail _ hx))
      (show 3 * (tokensAll ds).length + steps ≤ n by omega) (d.datum :: found)
    refine ⟨left, hleft, ?_⟩
    rw [tokensAll, List.append_assoc, datumAll, List.reverse_cons, List.append_assoc]
    rw [ht, List.cons_append] at hform ⊢
    rw [items_cons, if_neg (by simp [hopen]), if_neg (by simp [hdot d (.head _) t ts ht]), hform]
    exact hitems

/-- A row of trees up to a closing bracket. -/
theorem items_closed {opener closer : Token} (hcloser : closer.kind.isCloser = true)
    (hcloses : closes opener.kind closer.kind = true) {ds : List Derivation}
    (hreads : ∀ d ∈ ds, Reads ending d) (hvalid : ∀ d ∈ ds, d.Valid)
    (hdot : ∀ d ∈ ds, ∀ t ts, d.tokens = t :: ts → isDot opener t = false)
    {fuel : Nat} (hfuel : 3 * (tokensAll ds).length + 1 ≤ fuel) (rest : List Token) :
    items ending fuel .unbounded opener [] (tokensAll ds ++ closer :: rest) =
      .ok ((datumAll ds, .nil), rest) := by
  obtain ⟨left, hleft, hitems⟩ :=
    items_row hreads hvalid hdot (Nat.le_refl 1) hfuel [] (closer :: rest)
  obtain ⟨n, rfl⟩ : ∃ n, left = n + 1 := ⟨left - 1, by omega⟩
  rw [hitems, items_cons, if_pos hcloser, if_pos hcloses]
  simp

/-- A row of trees, a dot, a tree and a closing bracket. -/
theorem items_dotted {opener dot closer : Token} (hopen : opener.kind = .openParen)
    (hcloser : closer.kind = .closeParen) (hdotKind : dot.kind = .symbol)
    (hdotText : dot.text = ".") {ds : List Derivation} {last : Derivation}
    (hreads : ∀ d ∈ ds, Reads ending d) (hvalid : ∀ d ∈ ds, d.Valid)
    (hdot : ∀ d ∈ ds, ∀ t ts, d.tokens = t :: ts → isDot opener t = false) (hne : ds ≠ [])
    (hlast : Reads ending last) (hvalidLast : last.Valid) {fuel : Nat}
    (hfuel : 3 * (tokensAll ds).length + (3 * last.tokens.length + 1) ≤ fuel) (rest : List Token) :
    items ending fuel .unbounded opener []
        (tokensAll ds ++ dot :: (last.tokens ++ closer :: rest)) =
      .ok ((datumAll ds, last.datum), rest) := by
  obtain ⟨left, hleft, hitems⟩ := items_row hreads hvalid hdot (by omega) hfuel []
    (dot :: (last.tokens ++ closer :: rest))
  obtain ⟨n, rfl⟩ : ∃ n, left = n + 1 := ⟨left - 1, by omega⟩
  have hform := hlast n (closer :: rest) (by omega)
  obtain ⟨t, ts, ht, -⟩ := hvalidLast.head
  have hfound : datumAll ds ≠ [] := by
    rw [Derivation.datumAll_eq_map]
    simpa using hne
  rw [hitems, items_cons, if_neg (by rw [hdotKind]; decide),
    if_pos (by simp [isDot, hopen, hdotKind, hdotText]), if_neg (by simpa using hfound)]
  rw [ht, List.cons_append] at hform ⊢
  simp [hform, hopen, hcloser, closes, TokenKind.isCloser, bind, Except.bind]

/-- A form between brackets, from the reading of what stands between them. -/
theorem form_bracketed {opener : Token}
    (hopen : opener.kind = .openParen ∨ opener.kind = .openBracket ∨ opener.kind = .openBrace)
    {n : Nat} {ts rest : List Token} {found : List Datum} {tail d : Datum}
    (hitems : items ending n .unbounded opener [] ts = .ok ((found, tail), rest))
    (hd : enclosed opener found tail = .ok d) :
    form ending (n + 2) .unbounded (opener :: ts) = .ok (d, rest) := by
  have hform : form ending (n + 2) .unbounded (opener :: ts) =
      bracketed ending (n + 1) .unbounded opener ts := by
    rw [form_cons]
    rcases hopen with h | h | h <;> rw [h]
  rw [hform, bracketed_succ, hitems]
  simp [bind, Except.bind, hd, pure, Except.pure]

/-- A row of trees between brackets. -/
theorem form_closed {opener closer : Token}
    (hopen : opener.kind = .openParen ∨ opener.kind = .openBracket ∨ opener.kind = .openBrace)
    (hcloses : closes opener.kind closer.kind = true) {ds : List Derivation}
    (hreads : ∀ d ∈ ds, Reads ending d) (hvalid : ∀ d ∈ ds, d.Valid)
    (hdot : ∀ d ∈ ds, ∀ t ts, d.tokens = t :: ts → isDot opener t = false) {d : Datum}
    (hd : enclosed opener (datumAll ds) .nil = .ok d) {fuel : Nat}
    (hfuel : 3 * (tokensAll ds).length + 3 ≤ fuel) (rest : List Token) :
    form ending fuel .unbounded (opener :: (tokensAll ds ++ closer :: rest)) = .ok (d, rest) := by
  obtain ⟨n, rfl⟩ : ∃ n, fuel = n + 2 := ⟨fuel - 2, by omega⟩
  have hcloser : closer.kind.isCloser = true := by
    rcases closes_cases hcloses with ⟨-, h⟩ | ⟨-, h⟩ | ⟨-, h⟩ <;> rw [h] <;> rfl
  have hle : 3 * (tokensAll ds).length + 1 ≤ n := by omega
  exact form_bracketed hopen (items_closed hcloser hcloses hreads hvalid hdot hle rest) hd

theorem mem_tokensAll {ds : List Derivation} {d : Derivation} {t : Token} (hd : d ∈ ds)
    (ht : t ∈ d.tokens) : t ∈ tokensAll ds := by
  rw [Derivation.tokensAll_eq_flatMap]
  exact List.mem_flatMap.2 ⟨d, hd, ht⟩

/-- An element of a list does not begin with the dot that ends the elements. -/
theorem isDot_eq_false {opener : Token} {d : Derivation} (h : ¬ d.StartsWithDot) {t : Token}
    {ts : List Token} (ht : d.tokens = t :: ts) : isDot opener t = false := by
  have hdot := (Derivation.not_startsWithDot_iff ht).1 h
  rw [Derivation.IsDot] at hdot
  simp only [isDot, Bool.and_eq_false_iff, decide_eq_false_iff_not]
  by_cases hkind : t.kind = .symbol
  · exact .inr fun htext => hdot ⟨hkind, htext⟩
  · exact .inl (.inr hkind)

/-- The parser reads every tree of the grammar. -/
theorem form_complete {d : Derivation} (hd : d.Valid) (htokens : ∀ t ∈ d.tokens, t.Decodable) :
    Reads ending d := by
  induction hd with
  | @atom t kind spelt =>
    intro fuel rest hfuel
    obtain ⟨n, rfl⟩ : ∃ n, fuel = n + 1 := ⟨fuel - 1, by simp [tokens] at hfuel; omega⟩
    show form ending (n + 1) .unbounded (t :: rest) = _
    rw [form_cons, kind, atom_eq kind (htokens t (.head _)) spelt]
    rfl
  | @string t kind escapes =>
    intro fuel rest hfuel
    obtain ⟨n, rfl⟩ : ∃ n, fuel = n + 1 := ⟨fuel - 1, by simp [tokens] at hfuel; omega⟩
    show form ending (n + 1) .unbounded (t :: rest) = _
    rw [form_cons, kind, string_eq kind (htokens t (.head _)).2 escapes]
    rfl
  | @quoted mark operand kind valid ih =>
    intro fuel rest hfuel
    simp only [tokens, List.length_cons] at hfuel
    obtain ⟨n, rfl⟩ : ∃ n, fuel = n + 2 := ⟨fuel - 2, by omega⟩
    have hform := ih (fun t ht => htokens t (.tail _ ht)) n rest (by omega)
    obtain ⟨t, ts, ht, hopen⟩ := valid.head
    have hquoted : form ending (n + 2) .unbounded (mark :: (operand.tokens ++ rest)) =
        quoted ending (n + 1) .unbounded mark (operand.tokens ++ rest) := by
      rw [form_cons]
      rcases kind with kind | kind <;> rw [kind]
    show form ending (n + 2) .unbounded (mark :: (operand.tokens ++ rest)) = _
    rw [hquoted]
    rw [ht, List.cons_append] at hform ⊢
    rw [quoted_cons, if_neg (by simp [hopen]), hform]
    rfl
  | @list opener closer elements opens closes valid noDot ih =>
    intro fuel rest hfuel
    simp only [tokens, List.length_cons, List.length_append, List.length_nil] at hfuel
    simp only [tokens, List.cons_append, List.append_assoc, List.nil_append]
    exact form_closed (.inl opens) (by rw [opens, closes]; rfl)
      (fun d hd => ih d hd fun t ht => htokens t (by simp [tokens, mem_tokensAll hd ht])) valid
      (fun d hd t ts ht => isDot_eq_false (noDot d hd) ht) (by rw [enclosed, opens]; rfl)
      (by omega) rest
  | @dotted opener dot closer elements last opens closes valid noDot nonempty dotKind dotText
      validLast ih ihLast =>
    intro fuel rest hfuel
    simp only [tokens, List.length_cons, List.length_append, List.length_nil] at hfuel
    obtain ⟨n, rfl⟩ : ∃ n, fuel = n + 2 := ⟨fuel - 2, by omega⟩
    have hreads : ∀ d ∈ elements, Reads ending d := fun d hd =>
      ih d hd fun t ht => htokens t (by simp [tokens, mem_tokensAll hd ht])
    have hlast : Reads ending last := ihLast fun t ht => htokens t (by simp [tokens, ht])
    have hle : 3 * (tokensAll elements).length + (3 * last.tokens.length + 1) ≤ n := by omega
    have hitems := items_dotted opens closes dotKind dotText hreads valid
      (fun d hd t ts ht => isDot_eq_false (noDot d hd) ht) nonempty hlast validLast hle rest
    simp only [tokens, List.cons_append, List.append_assoc, List.nil_append]
    exact form_bracketed (.inl opens) hitems (by rw [enclosed, opens]; rfl)
  | @vector opener closer items opens closes valid ih =>
    intro fuel rest hfuel
    simp only [tokens, List.length_cons, List.length_append, List.length_nil] at hfuel
    simp only [tokens, List.cons_append, List.append_assoc, List.nil_append]
    exact form_closed (.inr (.inl opens)) (by rw [opens, closes]; rfl)
      (fun d hd => ih d hd fun t ht => htokens t (by simp [tokens, mem_tokensAll hd ht])) valid
      (fun d hd t ts ht => by simp [isDot, opens]) (by rw [enclosed, opens]; rfl) (by omega) rest
  | @map opener closer entries opens closes valid keys ih =>
    intro fuel rest hfuel
    simp only [tokens, Derivation.tokensEntries_eq, List.length_cons, List.length_append,
      List.length_nil] at hfuel htokens
    simp only [tokens, Derivation.tokensEntries_eq, List.cons_append, List.append_assoc,
      List.nil_append]
    exact form_closed (.inr (.inr opens)) (by rw [opens, closes]; rfl)
      (fun d hd => ih d hd fun t ht => htokens t (by simp [mem_tokensAll hd ht])) valid
      (fun d hd t ts ht => by simp [isDot, opens]) (enclosed_map opens keys) (by omega) rest

/-- The parser reads every derivation to its end. -/
theorem all_complete {steps fuel : Nat} {forest : List Derivation} (found : List Datum)
    (hvalid : ∀ d ∈ forest, d.Valid) (hdecodable : ∀ t ∈ tokensAll forest, t.Decodable)
    (hsteps : 3 * (tokensAll forest).length ≤ steps) (hfuel : (tokensAll forest).length < fuel) :
    all none .unbounded steps fuel found (tokensAll forest) =
      .ok (found.reverse ++ forest.map Derivation.datum) := by
  induction forest generalizing found fuel with
  | nil =>
    obtain ⟨n, rfl⟩ : ∃ n, fuel = n + 1 := ⟨fuel - 1, by omega⟩
    simp [tokensAll, all]
  | cons d forest ih =>
    obtain ⟨n, rfl⟩ : ∃ n, fuel = n + 1 := ⟨fuel - 1, by omega⟩
    obtain ⟨t, ts, ht, -⟩ := (hvalid d (.head _)).head
    simp only [tokensAll, List.length_append] at hsteps hfuel
    have hpos : 1 ≤ d.tokens.length := by rw [ht]; simp
    rw [tokensAll, List.forall_mem_append] at hdecodable
    have hreads : Reads none d := form_complete (hvalid d (.head _)) hdecodable.1
    have hform := hreads steps (tokensAll forest) (by omega)
    have hrest := ih (d.datum :: found) (fun x hx => hvalid x (.tail _ hx)) hdecodable.2 (by omega)
      (by omega : (tokensAll forest).length < n)
    rw [tokensAll]
    rw [ht, List.cons_append] at hform ⊢
    rw [all, hform]
    show all none .unbounded steps n (d.datum :: found) (tokensAll forest) = _
    rw [hrest]
    simp

end

end Parser

end TemplateLisp
