import Mathlib
import TemplateLisp.Proofs.LexingParts
import TemplateLisp.Proofs.ParserPlaces

/-!
# Reading texts one after the other

`read_concatenation`: a text that can be read, a line end and another text are read as the one text
and the other. No token, comment, string or form of the first text reaches into the second, and
whatever comes of the second, data or a fault, comes of it at the same column as many lines further
down as the first text and the line end make.

The tokens of the second text are those of the whole behind the tokens of the first (`lex_lines`).
The parser has read the trees of the first when it comes to them (`Parser.all_row`), and then does
with them what it does with the second text alone (`Parser.all_moves`).
-/

namespace TemplateLisp

/-- The trees of one program in front of the moved tokens of another: the data of the trees, and
then what comes of the other tokens by themselves. -/
theorem Parser.all_behind (f : Pos → Pos) (ending : Option (SyntaxFault × Pos))
    {forest : List Derivation} (hvalid : ∀ d ∈ forest, d.Valid)
    (hdecodable : ∀ t ∈ Derivation.tokensAll forest, t.Decodable) (ts : List Token) :
    Moves f (fun ds => forest.map Derivation.datum ++ ds.map (Datum.moved f))
      (all ending .unbounded (fuelFor ts) (ts.length + 1) [] ts)
      (all (movedEnding f ending) .unbounded
        (fuelFor (Derivation.tokensAll forest ++ ts.map (Token.moved f)))
        ((Derivation.tokensAll forest ++ ts.map (Token.moved f)).length + 1) []
        (Derivation.tokensAll forest ++ ts.map (Token.moved f))) := by
  simp only [fuelFor, List.length_append, List.length_map]
  have hsteps : 3 * (Derivation.tokensAll forest).length ≤
      3 * ((Derivation.tokensAll forest).length + ts.length) + 3 := by omega
  have hfuel : (Derivation.tokensAll forest).length + (ts.length + 1) ≤
      (Derivation.tokensAll forest).length + ts.length + 1 := by omega
  obtain ⟨fuel, hleft, hrow⟩ :=
    all_row hvalid hdecodable hsteps hfuel [] (ts.map (Token.moved f))
  rw [hrow, List.append_nil]
  exact all_moves f ending .unbounded (by omega) hleft (forest.map Derivation.datum) [] ts

/-- Reading is compositional. The data of the first text keep their places, those of the second and
the faults of the second are moved down by its number of line ends and one more. -/
theorem read_concatenation (s t : String) (fs : List Datum) (h : read .unbounded s = .ok fs) :
    read .unbounded (s ++ "\n" ++ t) =
      match read .unbounded t with
      | .ok gs => .ok (fs ++ gs.map (Datum.moved (Pos.down (s.toList.count '\n' + 1))))
      | .error e => .error (e.moved (Pos.down (s.toList.count '\n' + 1))) := by
  obtain ⟨hfault, hdecodable, forest, ⟨hvalid, htokens⟩, rfl⟩ := read_ok h
  rw [← Derivation.tokensAll_eq_flatMap] at htokens
  rw [← htokens] at hdecodable
  have htext : (s ++ "\n" ++ t).toList = s.toList ++ '\n' :: t.toList := by simp
  have hmoves := Parser.all_behind (Pos.down (s.toList.count '\n' + 1)) (lex t.toList).fault hvalid
    hdecodable (lex t.toList).tokens
  rcases hmoves with hdeep | hmoved
  · exact absurd hdeep (read_ne_tooDeep t)
  · have hread : Parser.all (lex t.toList).fault .unbounded (Parser.fuelFor (lex t.toList).tokens)
        ((lex t.toList).tokens.length + 1) [] (lex t.toList).tokens = read .unbounded t := rfl
    rw [hread] at hmoved
    rw [read, htext, lex_lines hfault, ← htokens, hmoved]
    cases read .unbounded t with
    | ok gs => rfl
    | error e => rfl

/-- Two programs of which the first ends in a comment and holds a string over two lines: the places
of the second are moved down by two lines. -/
theorem read_concatenation_comment :
    read .unbounded ("(a \"x\ny\") ; end" ++ "\n" ++ "'b\n (c)") =
      .ok [.cons (some ⟨1, 1⟩) (.sym ⟨"a"⟩) (.cons none (.str "x\ny") .nil),
        .cons (some ⟨3, 1⟩) (.sym ⟨"quote"⟩) (.cons none (.sym ⟨"b"⟩) .nil),
        .cons (some ⟨4, 2⟩) (.sym ⟨"c"⟩) .nil] := by
  have hfirst : read .unbounded "(a \"x\ny\") ; end" =
      .ok [.cons (some ⟨1, 1⟩) (.sym ⟨"a"⟩) (.cons none (.str "x\ny") .nil)] := by cbv
  have hsecond : read .unbounded "'b\n (c)" =
      .ok [.cons (some ⟨1, 1⟩) (.sym ⟨"quote"⟩) (.cons none (.sym ⟨"b"⟩) .nil),
        .cons (some ⟨2, 2⟩) (.sym ⟨"c"⟩) .nil] := by cbv
  rw [read_concatenation _ _ _ hfirst, hsecond]
  cbv

end TemplateLisp
