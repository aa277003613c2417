import TemplateLisp.Reader.Parser

/-!
# The grammar of data

A `Derivation` is a tree of the grammar

    form ::= atom | string | mark form | ( element* ) | ( element+ . form ) | [ form* ]
           | { (key form)* }

with its tokens at the leaves. `Derivation.Valid` says which trees the grammar has,
`Derivation.tokens` is the sequence of tokens that a tree spans, and `Derivation.datum` computes
what it denotes, with the helpers that the parser has for that.

The grammar is unambiguous (`Derivation.forest_unique`): the first token of a form settles its
production but for the two kinds of list, and what follows the elements of a list, a closing bracket
or a dot, cannot begin another element.
-/

namespace TemplateLisp

/-- A tree of the grammar of data. -/
inductive Derivation where
  | atom (t : Token)
  | string (t : Token)
  | quoted (mark : Token) (operand : Derivation)
  | list (opener : Token) (elements : List Derivation) (closer : Token)
  | dotted (opener : Token) (elements : List Derivation) (dot : Token) (last : Derivation)
      (closer : Token)
  | vector (opener : Token) (items : List Derivation) (closer : Token)
  | map (opener : Token) (entries : List (Derivation × Derivation)) (closer : Token)

namespace Derivation

/-! ## The tokens of a tree -/

mutual
/-- The tokens that a tree spans, in order. -/
def tokens : Derivation → List Token
  | .atom t => [t]
  | .string t => [t]
  | .quoted mark operand => mark :: tokens operand
  | .list opener elements closer => opener :: (tokensAll elements ++ [closer])
  | .dotted opener elements dot last closer =>
    opener :: (tokensAll elements ++ dot :: (tokens last ++ [closer]))
  | .vector opener items closer => opener :: (tokensAll items ++ [closer])
  | .map opener entries closer => opener :: (tokensEntries entries ++ [closer])

/-- The tokens of trees that stand in a row. -/
def tokensAll : List Derivation → List Token
  | [] => []
  | d :: ds => tokens d ++ tokensAll ds

/-- The tokens of keys and values that stand in a row. -/
def tokensEntries : List (Derivation × Derivation) → List Token
  | [] => []
  | e :: es => tokensEntry e ++ tokensEntries es

/-- The tokens of a key and its value. -/
def tokensEntry : Derivation × Derivation → List Token
  | (k, v) => tokens k ++ tokens v
end

/-- `tokensAll` in the natural form. -/
theorem tokensAll_eq_flatMap (ds : List Derivation) : tokensAll ds = ds.flatMap tokens := by
  induction ds with
  | nil => rfl
  | cons d ds ih => rw [tokensAll, ih, List.flatMap_cons]

/-- Keys and values in a row, as trees in a row. -/
def flatten (entries : List (Derivation × Derivation)) : List Derivation :=
  entries.flatMap fun e => [e.1, e.2]

/-- Keys and values span what they span as trees in a row. -/
theorem tokensEntries_eq (es : List (Derivation × Derivation)) :
    tokensEntries es = tokensAll (flatten es) := by
  induction es with
  | nil => rfl
  | cons e es ih =>
    obtain ⟨k, v⟩ := e
    show tokensEntry (k, v) ++ tokensEntries es = tokens k ++ (tokens v ++ tokensAll (flatten es))
    rw [ih, tokensEntry, List.append_assoc]

/-- A row of even length is a row of keys and values. -/
theorem exists_flatten : ∀ {xs : List Derivation}, xs.length % 2 = 0 →
    ∃ es, flatten es = xs
  | [], _ => ⟨[], rfl⟩
  | [_], h => by simp at h
  | k :: v :: xs, h => by
    have heven : xs.length % 2 = 0 := by simp at h; omega
    obtain ⟨es, rfl⟩ := exists_flatten heven
    exact ⟨(k, v) :: es, rfl⟩

/-! ## What a tree denotes -/

/-- The datum of a symbol token. A token that denotes none is no leaf of a valid tree. -/
def atomDatum (t : Token) : Datum :=
  match Atom.parse t.text with
  | .ok d => d
  | .error _ => .nil

/-- The datum of a string token. A token that denotes none is no leaf of a valid tree. -/
def stringDatum (t : Token) : Datum :=
  match StringLiteral.decode t.text with
  | .ok codes => .ofCodes codes
  | .error _ => .nil

/-- Entries written one after the other: a later value of a key replaces the one before. -/
def written (entries : List (Datum × Datum)) : List (Datum × Datum) :=
  entries.foldl (fun es e => Datum.putEntry e.1 e.2 es) []

mutual
/-- The datum that a tree denotes. Lists and quoted forms carry the place of their first token. -/
def datum : Derivation → Datum
  | .atom t => atomDatum t
  | .string t => stringDatum t
  | .quoted mark operand =>
    Datum.ofList (some mark.pos) .nil [.sym (Parser.quoteSymbol mark.text), datum operand]
  | .list opener elements _ => Datum.ofList (some opener.pos) .nil (datumAll elements)
  | .dotted opener elements _ last _ =>
    Datum.ofList (some opener.pos) (datum last) (datumAll elements)
  | .vector _ items _ => .vector (datumAll items)
  | .map _ entries _ => .map (written (datumEntries entries))

/-- The data of trees in a row. -/
def datumAll : List Derivation → List Datum
  | [] => []
  | d :: ds => datum d :: datumAll ds

/-- The data of keys and values. -/
def datumEntries : List (Derivation × Derivation) → List (Datum × Datum)
  | [] => []
  | e :: es => datumEntry e :: datumEntries es

/-- The data of a key and its value. -/
def datumEntry : Derivation × Derivation → Datum × Datum
  | (k, v) => (datum k, datum v)
end

/-- `datumAll` in the natural form. -/
theorem datumAll_eq_map (ds : List Derivation) : datumAll ds = ds.map datum := by
  induction ds with
  | nil => rfl
  | cons d ds ih => rw [datumAll, ih, List.map_cons]

theorem mem_datumEntries {es : List (Derivation × Derivation)} {e : Derivation × Derivation}
    (he : e ∈ es) : datumEntry e ∈ datumEntries es := by
  induction he with
  | head => exact .head _
  | tail _ _ ih => exact .tail _ ih

/-! ## The trees of the grammar -/

/-- The tree starts with a dot that stands by itself. -/
def StartsWithDot (d : Derivation) : Prop :=
  ∃ t ts, d.tokens = t :: ts ∧ t.kind = .symbol ∧ t.text = "."

/-- The trees that the grammar has. A symbol token must not be a misspelt number, a string token
must have no bad escape, an element of a list must not start with a dot, and a key must denote an
atom. -/
inductive Valid : Derivation → Prop where
  | atom {t : Token} (kind : t.kind = .symbol)
      (spelt : Atom.parse t.text ≠ .error .malformedNumber) : Valid (.atom t)
  | string {t : Token} (kind : t.kind = .string)
      (escapes : ∀ digits, StringLiteral.decode t.text ≠ .error (.badUnicodeEscape digits)) :
      Valid (.string t)
  | quoted {mark : Token} {operand : Derivation} (kind : mark.kind = .quote ∨ mark.kind = .unquote)
      (valid : Valid operand) : Valid (.quoted mark operand)
  | list {opener closer : Token} {elements : List Derivation} (opens : opener.kind = .openParen)
      (closes : closer.kind = .closeParen) (valid : ∀ d ∈ elements, Valid d)
      (noDot : ∀ d ∈ elements, ¬ StartsWithDot d) : Valid (.list opener elements closer)
  | dotted {opener dot closer : Token} {elements : List Derivation} {last : Derivation}
      (opens : opener.kind = .openParen) (closes : closer.kind = .closeParen)
      (valid : ∀ d ∈ elements, Valid d) (noDot : ∀ d ∈ elements, ¬ StartsWithDot d)
      (nonempty : elements ≠ []) (dotKind : dot.kind = .symbol) (dotText : dot.text = ".")
      (validLast : Valid last) : Valid (.dotted opener elements dot last closer)
  | vector {opener closer : Token} {items : List Derivation} (opens : opener.kind = .openBracket)
      (closes : closer.kind = .closeBracket) (valid : ∀ d ∈ items, Valid d) :
      Valid (.vector opener items closer)
  | map {opener closer : Token} {entries : List (Derivation × Derivation)}
      (opens : opener.kind = .openBrace) (closes : closer.kind = .closeBrace)
      (valid : ∀ d ∈ flatten entries, Valid d) (keys : ∀ e ∈ entries, e.1.datum.isAtom = true) :
      Valid (.map opener entries closer)

/-- Trees of the grammar that span the tokens together: a derivation of a program. -/
def Derives (forest : List Derivation) (ts : List Token) : Prop :=
  (∀ d ∈ forest, Valid d) ∧ forest.flatMap tokens = ts

/-! ## Unambiguity -/

/-- A tree of the grammar spans at least one token, and its first token closes no bracket. -/
theorem Valid.head {d : Derivation} (h : Valid d) :
    ∃ t ts, d.tokens = t :: ts ∧ t.kind.isCloser = false := by
  cases h with
  | atom kind => exact ⟨_, _, rfl, by rw [kind]; rfl⟩
  | string kind => exact ⟨_, _, rfl, by rw [kind]; rfl⟩
  | quoted kind => exact ⟨_, _, rfl, by rcases kind with kind | kind <;> rw [kind] <;> rfl⟩
  | list opens | dotted opens | vector opens | map opens =>
    exact ⟨_, _, rfl, by rw [opens]; rfl⟩

/-- The token is the dot of a dotted list. -/
def IsDot (t : Token) : Prop := t.kind = .symbol ∧ t.text = "."

theorem not_startsWithDot_iff {d : Derivation} {t : Token} {ts : List Token}
    (h : d.tokens = t :: ts) : ¬ StartsWithDot d ↔ ¬ IsDot t := by
  constructor
  · rintro hd ⟨hk, ht⟩
    exact hd ⟨t, ts, h, hk, ht⟩
  · rintro ht ⟨t', ts', h', hk, htext⟩
    rw [h] at h'
    obtain ⟨rfl, -⟩ := List.cons.inj h'
    exact ht ⟨hk, htext⟩

/-- Two trees in a row with what follows are cut in one way, for the tree that comes first. -/
def UniqueHead (d : Derivation) : Prop :=
  ∀ {d' : Derivation} {r r' : List Token}, Valid d' → d.tokens ++ r = d'.tokens ++ r' →
    d = d' ∧ r = r'

/-- Rows of trees are cut in one way if what follows them begins with a token that
begins no tree. -/
theorem rows_unique (stop : Token → Prop) {ds ds' : List Derivation} {r r' : List Token}
    (unique : ∀ d ∈ ds, UniqueHead d) (valid : ∀ d ∈ ds, Valid d) (valid' : ∀ d ∈ ds', Valid d)
    (starts : ∀ d ∈ ds, ∀ t ts, d.tokens = t :: ts → ¬ stop t)
    (starts' : ∀ d ∈ ds', ∀ t ts, d.tokens = t :: ts → ¬ stop t)
    (ends : ∀ t ts, r = t :: ts → stop t) (ends' : ∀ t ts, r' = t :: ts → stop t)
    (h : tokensAll ds ++ r = tokensAll ds' ++ r') : ds = ds' ∧ r = r' := by
  induction ds generalizing ds' with
  | nil =>
    cases ds' with
    | nil => exact ⟨rfl, h⟩
    | cons d' ds' =>
      obtain ⟨t, ts, ht, -⟩ := (valid' d' (.head _)).head
      simp only [tokensAll, ht, List.nil_append, List.cons_append] at h
      exact absurd (ends t _ h) (starts' d' (.head _) t ts ht)
  | cons d ds ih =>
    cases ds' with
    | nil =>
      obtain ⟨t, ts, ht, -⟩ := (valid d (.head _)).head
      simp only [tokensAll, ht, List.nil_append, List.cons_append] at h
      exact absurd (ends' t _ h.symm) (starts d (.head _) t ts ht)
    | cons d' ds' =>
      simp only [tokensAll, List.append_assoc] at h
      obtain ⟨rfl, hrest⟩ := unique d (.head _) (valid' d' (.head _)) h
      obtain ⟨rfl, hr⟩ := ih (fun x hx => unique x (.tail _ hx)) (fun x hx => valid x (.tail _ hx))
        (fun x hx => valid' x (.tail _ hx)) (fun x hx => starts x (.tail _ hx))
        (fun x hx => starts' x (.tail _ hx)) hrest
      exact ⟨rfl, hr⟩

/-- Forms in brackets: rows of trees up to a closing bracket are cut in one way. -/
theorem rows_unique_of_closer {ds ds' : List Derivation} {c c' : Token} {r r' : List Token}
    (unique : ∀ d ∈ ds, UniqueHead d) (valid : ∀ d ∈ ds, Valid d) (valid' : ∀ d ∈ ds', Valid d)
    (closes : c.kind.isCloser = true) (closes' : c'.kind.isCloser = true)
    (h : tokensAll ds ++ c :: r = tokensAll ds' ++ c' :: r') : ds = ds' ∧ c = c' ∧ r = r' := by
  have starts : ∀ d : Derivation, Valid d → ∀ t ts, d.tokens = t :: ts →
      ¬ t.kind.isCloser = true := by
    intro d hd t ts ht
    obtain ⟨t', ts', ht', hopen⟩ := hd.head
    rw [ht] at ht'
    obtain ⟨rfl, -⟩ := List.cons.inj ht'
    simp [hopen]
  obtain ⟨hds, hr⟩ := rows_unique (·.kind.isCloser = true) unique valid valid'
    (fun d hd => starts d (valid d hd))
    (fun d hd => starts d (valid' d hd))
    (fun t ts ht => by obtain ⟨rfl, -⟩ := List.cons.inj ht; exact closes)
    (fun t ts ht => by obtain ⟨rfl, -⟩ := List.cons.inj ht; exact closes') h
  exact ⟨hds, List.cons.inj hr⟩

/-- Elements of a list: rows of trees up to a closing bracket or a dot are cut in one way. -/
theorem elements_unique {ds ds' : List Derivation} {c c' : Token} {r r' : List Token}
    (unique : ∀ d ∈ ds, UniqueHead d) (valid : ∀ d ∈ ds, Valid d) (valid' : ∀ d ∈ ds', Valid d)
    (noDot : ∀ d ∈ ds, ¬ StartsWithDot d) (noDot' : ∀ d ∈ ds', ¬ StartsWithDot d)
    (ends : c.kind.isCloser = true ∨ IsDot c) (ends' : c'.kind.isCloser = true ∨ IsDot c')
    (h : tokensAll ds ++ c :: r = tokensAll ds' ++ c' :: r') : ds = ds' ∧ c = c' ∧ r = r' := by
  have starts : ∀ d : Derivation, Valid d → ¬ StartsWithDot d → ∀ t ts, d.tokens = t :: ts →
      ¬ (t.kind.isCloser = true ∨ IsDot t) := by
    intro d hd hdot t ts ht
    obtain ⟨t', ts', ht', hopen⟩ := hd.head
    rw [ht] at ht'
    obtain ⟨rfl, -⟩ := List.cons.inj ht'
    rintro (hcloser | hisDot)
    · simp [hopen] at hcloser
    · exact (not_startsWithDot_iff ht).1 hdot hisDot
  obtain ⟨hds, hr⟩ := rows_unique (fun t => t.kind.isCloser = true ∨ IsDot t) unique valid valid'
    (fun d hd => starts d (valid d hd) (noDot d hd))
    (fun d hd => starts d (valid' d hd) (noDot' d hd))
    (fun t ts ht => by obtain ⟨rfl, -⟩ := List.cons.inj ht; exact ends)
    (fun t ts ht => by obtain ⟨rfl, -⟩ := List.cons.inj ht; exact ends') h
  exact ⟨hds, List.cons.inj hr⟩

theorem flatten_injective {es es' : List (Derivation × Derivation)}
    (h : flatten es = flatten es') : es = es' := by
  induction es generalizing es' with
  | nil =>
    cases es' with
    | nil => rfl
    | cons e es' => simp [flatten] at h
  | cons e es ih =>
    cases es' with
    | nil => simp [flatten] at h
    | cons e' es' =>
      simp only [flatten, List.flatMap_cons, List.cons_append, List.nil_append,
        List.cons.injEq] at h
      obtain ⟨hk, hv, hrest⟩ := h
      rw [ih hrest, Prod.ext hk hv]

/-- A tree of the grammar is the only one that spans the tokens it starts with. -/
theorem Valid.uniqueHead {d : Derivation} (h : Valid d) : UniqueHead d := by
  induction h with
  | @atom t kind _ =>
    intro d' r r' hd' heq
    cases hd' <;> simp_all [tokens]
  | @string t kind _ =>
    intro d' r r' hd' heq
    cases hd' <;> simp_all [tokens]
  | @quoted mark operand kind _ ih =>
    intro d' r r' hd' heq
    cases hd' with
    | quoted kind' valid' =>
      obtain ⟨rfl, hrest⟩ := List.cons.inj heq
      obtain ⟨rfl, hr⟩ := ih valid' hrest
      exact ⟨rfl, hr⟩
    | _ => simp_all [tokens]
  | @list opener closer elements opens closes valid noDot ih =>
    intro d' r r' hd' heq
    have hends : closer.kind.isCloser = true ∨ IsDot closer := .inl (by rw [closes]; rfl)
    cases hd' with
    | @list _ closer' _ _ closes' valid' noDot' =>
      simp only [tokens, List.cons_append, List.append_assoc, List.nil_append,
        List.cons.injEq] at heq
      obtain ⟨rfl, hrest⟩ := heq
      obtain ⟨rfl, rfl, hr⟩ := elements_unique ih valid valid' noDot noDot' hends
        (.inl (by rw [closes']; rfl)) hrest
      exact ⟨rfl, hr⟩
    | dotted _ _ valid' noDot' _ dotKind dotText =>
      simp only [tokens, List.cons_append, List.append_assoc, List.nil_append,
        List.cons.injEq] at heq
      obtain ⟨-, rfl, -⟩ := elements_unique ih valid valid' noDot noDot' hends
        (.inr ⟨dotKind, dotText⟩) heq.2
      rw [closes] at dotKind
      cases dotKind
    | _ => simp_all [tokens]
  | @dotted opener dot closer elements last opens closes valid noDot _ dotKind dotText
    _ ih ihLast =>
    intro d' r r' hd' heq
    cases hd' with
    | list _ closes' valid' noDot' =>
      simp only [tokens, List.cons_append, List.append_assoc, List.nil_append,
        List.cons.injEq] at heq
      obtain ⟨-, rfl, -⟩ := elements_unique ih valid valid' noDot noDot' (.inr ⟨dotKind, dotText⟩)
        (.inl (by rw [closes']; rfl)) heq.2
      rw [closes'] at dotKind
      cases dotKind
    | dotted _ _ valid' noDot' _ dotKind' dotText' validLast' =>
      simp only [tokens, List.cons_append, List.append_assoc, List.nil_append,
        List.cons.injEq] at heq
      obtain ⟨rfl, hrest⟩ := heq
      obtain ⟨rfl, rfl, hlast⟩ := elements_unique ih valid valid' noDot noDot'
        (.inr ⟨dotKind, dotText⟩) (.inr ⟨dotKind', dotText'⟩) hrest
      obtain ⟨rfl, hr⟩ := ihLast validLast' hlast
      obtain ⟨rfl, rfl⟩ := List.cons.inj hr
      exact ⟨rfl, rfl⟩
    | _ => simp_all [tokens]
  | @vector opener closer items opens closes valid ih =>
    intro d' r r' hd' heq
    cases hd' with
    | vector _ closes' valid' =>
      simp only [tokens, List.cons_append, List.append_assoc, List.nil_append,
        List.cons.injEq] at heq
      obtain ⟨rfl, hrest⟩ := heq
      obtain ⟨rfl, rfl, hr⟩ := rows_unique_of_closer ih valid valid' (by rw [closes]; rfl)
        (by rw [closes']; rfl) hrest
      exact ⟨rfl, hr⟩
    | _ => simp_all [tokens]
  | @map opener closer entries opens closes valid _ ih =>
    intro d' r r' hd' heq
    cases hd' with
    | map _ closes' valid' =>
      simp only [tokens, tokensEntries_eq, List.cons_append, List.append_assoc, List.nil_append,
        List.cons.injEq] at heq
      obtain ⟨rfl, hrest⟩ := heq
      obtain ⟨hentries, rfl, hr⟩ := rows_unique_of_closer ih valid valid' (by rw [closes]; rfl)
        (by rw [closes']; rfl) hrest
      exact ⟨by rw [flatten_injective hentries], hr⟩
    | _ => simp_all [tokens]

/-- A sequence of tokens has at most one derivation. -/
theorem forest_unique {forest forest' : List Derivation} {ts : List Token}
    (h : Derives forest ts) (h' : Derives forest' ts) : forest = forest' := by
  have heq : tokensAll forest ++ [] = tokensAll forest' ++ [] := by
    rw [tokensAll_eq_flatMap, tokensAll_eq_flatMap, h.2, h'.2]
  exact (rows_unique (fun _ => False) (fun d hd => (h.1 d hd).uniqueHead) h.1 h'.1
    (fun _ _ _ _ _ => id) (fun _ _ _ _ _ => id) (by simp) (by simp) heq).1

end Derivation

end TemplateLisp
