import Mathlib
import TemplateLisp.Interpreter
import TemplateLisp.Proofs.Denotation
import TemplateLisp.Proofs.ParserSound

/-!
# The reader accepts exactly its grammar

`read_iff_derives` puts the lexer and the parser together: a text can be read exactly if it can be
cut into tokens and these have a derivation, which is then the only one, and the result is what the
trees of the derivation denote. A text that cannot be read is refused with a syntax error at one of
its tokens or at the quote of a string that is not closed.
-/

namespace TemplateLisp

/-- The token is no integer literal with more digits than may be read. -/
def Token.ShortLiteral (t : Token) : Prop :=
  t.kind = .symbol → (Atom.splitSign t.text.toList).2.all Text.isDigit = true →
    (Atom.splitSign t.text.toList).2.length ≤ Number.maxDigits

instance (t : Token) : Decidable t.ShortLiteral :=
  inferInstanceAs (Decidable (t.kind = .symbol → (Atom.splitSign t.text.toList).2.all Text.isDigit →
    (Atom.splitSign t.text.toList).2.length ≤ Number.maxDigits))

/-- Only an integer literal can have too many digits. -/
theorem Token.ShortLiteral.parse_ne_tooManyDigits {t : Token} (h : t.ShortLiteral)
    (hkind : t.kind = .symbol) (n : Nat) : Atom.parse t.text ≠ .error (.tooManyDigits n) := by
  have hlength := h hkind
  unfold Atom.parse
  dsimp only
  split
  · rename_i hdigits
    simp only [Bool.and_eq_true] at hdigits
    rw [if_neg (Nat.not_lt.2 (hlength hdigits.2))]
    nofun
  · split
    · nofun
    · repeat' split
      all_goals nofun

/-- The tokens of a text decode if its literals are short. -/
theorem lex_decodable {source : List Char} (h : ∀ t ∈ (lex source).tokens, t.ShortLiteral) :
    ∀ t ∈ (lex source).tokens, t.Decodable := by
  intro t ht
  exact ⟨(h t ht).parse_ne_tooManyDigits, lex_string_decodable ht⟩

theorem lex_sound {source : List Char} (h : ∀ t ∈ (lex source).tokens, t.ShortLiteral) :
    ∀ t ∈ (lex source).tokens, t.Sound :=
  fun t ht => ⟨lex_decodable h t ht, lex_wellCut ht, lex_marks ht⟩

/-- The place is that of the quote of a string that the text does not close. -/
def AtOpenQuote (source : List Char) (pos : Pos) : Prop :=
  ∃ before after, source = before ++ '"' :: after ∧ pos = Pos.start.past before ∧
    Lexer.inString false after ≠ none ∧ lex before = ⟨(lex source).tokens, none⟩

theorem read_outcome (source : String) :
    Parser.AllOutcome (lex source.toList).fault [] (lex source.toList).tokens
      (read .unbounded source) :=
  Parser.all_outcome [] (fun _ => lex_string_decodable) (by rw [Parser.fuelFor]; omega) (by omega)

/-- Where nesting has no bound, a text that cannot be read has a fault or a literal that is too
long. -/
theorem read_failure {source : String} {f : ReadFailure} (h : read .unbounded source = .error f) :
    (∃ fault pos, f = .fault fault (some pos)) ∨
      ∃ digits, f = .literalTooLong digits ∧
        ∃ t ∈ (lex source.toList).tokens, ¬ t.ShortLiteral := by
  have houtcome := read_outcome source
  rw [h] at houtcome
  cases houtcome with
  | token fault mem => exact .inl ⟨fault, _, rfl⟩
  | scan eq => exact .inl ⟨_, _, rfl⟩
  | @literal t digits mem kind parse =>
    refine .inr ⟨digits, rfl, t, mem, fun hshort => ?_⟩
    exact hshort.parse_ne_tooManyDigits kind digits parse

theorem read_complete {source : String}
    (hshort : ∀ t ∈ (lex source.toList).tokens, t.ShortLiteral)
    (hfault : (lex source.toList).fault = none) {forest : List Derivation}
    (h : Derivation.Derives forest (lex source.toList).tokens) :
    read .unbounded source = .ok (forest.map Derivation.datum) := by
  have hdecodable := lex_decodable hshort
  obtain ⟨hvalid, htokens⟩ := h
  rw [← Derivation.tokensAll_eq_flatMap] at htokens
  simp only [read, hfault]
  rw [← htokens] at hdecodable ⊢
  exact Parser.all_complete [] hvalid hdecodable (by rw [Parser.fuelFor]; omega) (by omega)

/-- The reader accepts exactly its grammar, and the derivation that it follows is the only one. What
it refuses is a syntax error at a token of the text or at an open quote. -/
theorem read_iff_derives (source : String)
    (hshort : ∀ t ∈ (lex source.toList).tokens, t.ShortLiteral) :
    (∀ ds, read .unbounded source = .ok ds ↔ (lex source.toList).fault = none ∧
      ∃ forest, Derivation.Derives forest (lex source.toList).tokens ∧
        List.Forall₂ Derivation.Denotes forest ds) ∧
    (∀ forest forest', Derivation.Derives forest (lex source.toList).tokens →
      Derivation.Derives forest' (lex source.toList).tokens → forest = forest') ∧
    ∀ f, read .unbounded source = .error f → ∃ fault pos,
      Run.ofReadFailure f = .error ⟨.reading fault, some pos⟩ ∧
      Fault.kindName (.reading fault) = "SyntaxError" ∧
      ((∃ t ∈ (lex source.toList).tokens, t.pos = pos) ∨
        fault = .unterminatedString ∧ AtOpenQuote source.toList pos) := by
  have houtcome := read_outcome source
  have hsound := lex_sound hshort
  refine ⟨fun ds => ⟨fun hread => ?_, ?_⟩, fun _ _ => Derivation.forest_unique, fun f hread => ?_⟩
  · rw [hread] at houtcome
    obtain ⟨hfault, forest, hderives, hdata⟩ := houtcome
    exact ⟨hfault, forest, hderives, (hderives.denotes_iff hsound).2 hdata⟩
  · rintro ⟨hfault, forest, hderives, hdenotes⟩
    rw [(hderives.denotes_iff hsound).1 hdenotes]
    exact read_complete hshort hfault hderives
  · rw [hread] at houtcome
    cases houtcome with
    | token fault mem => exact ⟨fault, _, rfl, rfl, .inl ⟨_, mem, rfl⟩⟩
    | scan eq => exact ⟨_, _, rfl, rfl, .inr (lex_fault eq)⟩
    | literal mem kind parse =>
      exact absurd parse ((hshort _ mem).parse_ne_tooManyDigits kind _)

/-- A dotted list with a quoted tail, a map that writes a key twice and half of a surrogate pair. -/
def nestedSource : String := "(a \x7b1 2 1 \"\\ud800\"\x7d () . 'b)"

/-- What it denotes: the first key keeps its place, the last value counts, and every list that is
read carries the place of its bracket or mark. -/
def nestedDatum : Datum :=
  .cons (some ⟨1, 1⟩) (.sym ⟨"a"⟩) (.cons none (.map [(.num (.int 1), .wide ⟨[0xd800], rfl⟩)])
    (.cons none .nil (.cons (some ⟨1, 26⟩) (.sym ⟨"quote"⟩) (.cons none (.sym ⟨"b"⟩) .nil))))

/-- The literals of the text are short, so it is read by its only derivation. -/
theorem read_iff_derives_nested :
    (∀ t ∈ (lex nestedSource.toList).tokens, t.ShortLiteral) ∧
    read .unbounded nestedSource = .ok [nestedDatum] ∧ (lex nestedSource.toList).fault = none ∧
    ∃ forest, Derivation.Derives forest (lex nestedSource.toList).tokens ∧
      List.Forall₂ Derivation.Denotes forest [nestedDatum] := by
  have hshort : ∀ t ∈ (lex nestedSource.toList).tokens, t.ShortLiteral := by decide +kernel
  have hread : read .unbounded nestedSource = .ok [nestedDatum] := by cbv
  exact ⟨hshort, hread, ((read_iff_derives nestedSource hshort).1 [nestedDatum]).1 hread⟩

end TemplateLisp
