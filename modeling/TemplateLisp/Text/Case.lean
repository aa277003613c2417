import TemplateLisp.Text.CaseTable

/-!
# Lower and upper case

`lower` and `upper` map a whole text by the full case rules of Unicode: a character may become
several (`ß` becomes `SS`), and a capital sigma becomes `ς` at the end of a word and `σ` elsewhere.
-/

namespace TemplateLisp.Text

/-- The characters at the given code points. -/
def ofCodePoints (ns : List Nat) : List Char := ns.map Char.ofNat

/-- The counterpart of `c` under a table of runs and a table of sequences, or `c` itself. -/
def mapCase (runs : List CaseRun) (sequences : List (Nat × List Nat)) (c : Char) : List Char :=
  match sequences.lookup c.toNat with
  | some ns => ofCodePoints ns
  | none =>
    match runs.findSome? (·.image? c.toNat) with
    | some n => [Char.ofNat n]
    | none => [c]

/-- The lower-case form of one character, taken by itself. -/
def lowerChar (c : Char) : List Char :=
  if c.toNat < 128 then [c.toLower] else mapCase lowerRuns lowerSequences c

/-- The upper-case form of one character. -/
def upperChar (c : Char) : List Char :=
  if c.toNat < 128 then [c.toUpper] else mapCase upperRuns upperSequences c

/-- Whether the next character that has a case, marks passed over, comes before any other. -/
def meetsCased (s : List Char) : Bool :=
  match s.dropWhile caselessMarks.contains with
  | [] => false
  | c :: _ => casedChars.contains c

/-- The form of a capital sigma between `before` (nearest character first) and `after`. -/
def lowerSigma (before after : List Char) : Char :=
  if meetsCased before && !meetsCased after then 'ς' else 'σ'

/-- Lower case of a text that follows `before`, nearest character first. -/
def lowerAfter (before : List Char) : List Char → List Char
  | [] => []
  | c :: rest =>
    (if c = 'Σ' then [lowerSigma before rest] else lowerChar c) ++ lowerAfter (c :: before) rest

/-- The text in lower case. -/
def lower (s : List Char) : List Char := lowerAfter [] s

/-- The text in upper case. -/
def upper (s : List Char) : List Char := s.flatMap upperChar

end TemplateLisp.Text
