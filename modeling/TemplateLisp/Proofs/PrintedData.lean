import TemplateLisp.Proofs.ParserComplete
import TemplateLisp.Proofs.Spelling

/-!
# How printed data are cut

The printed text of a datum is cut into the tokens of a tree of the grammar that denotes the datum,
positions aside (`Spells`). The rest of a list does not make a tree by itself: it makes one with
every row of elements in front of it (`TailSpells`). What the printer writes for a datum is put
together from what it writes for the parts (`Printed`), and so is what it spells: there is one lemma
for each of the two and each way of putting data together.
-/

namespace TemplateLisp

namespace Datum

/-! ## Data without positions -/

mutual
/-- The datum without its positions. -/
def unplaced : Datum → Datum
  | .cons _ car cdr => .cons none (unplaced car) (unplaced cdr)
  | .vector items => .vector (unplacedAll items)
  | .tuple items => .tuple (unplacedAll items)
  | .map entries => .map (unplacedEntries entries)
  | d => d

/-- Data without their positions. -/
def unplacedAll : List Datum → List Datum
  | [] => []
  | d :: ds => unplaced d :: unplacedAll ds

/-- Entries without their positions. -/
def unplacedEntries : List (Datum × Datum) → List (Datum × Datum)
  | [] => []
  | e :: es => unplacedEntry e :: unplacedEntries es

/-- An entry without its positions. -/
def unplacedEntry : Datum × Datum → Datum × Datum
  | (k, v) => (unplaced k, unplaced v)
end

theorem unplacedAll_eq_map (ds : List Datum) : unplacedAll ds = ds.map unplaced := by
  induction ds with
  | nil => rfl
  | cons d ds ih => rw [unplacedAll, ih, List.map_cons]

theorem unplacedEntries_eq_map (es : List (Datum × Datum)) :
    unplacedEntries es = es.map fun e => (e.1.unplaced, e.2.unplaced) := by
  induction es with
  | nil => rfl
  | cons e es ih =>
    obtain ⟨k, v⟩ := e
    rw [unplacedEntries, ih, unplacedEntry, List.map_cons]

theorem isAtom_unplaced (d : Datum) : d.unplaced.isAtom = d.isAtom := by
  cases d <;> simp [unplaced, isAtom]

theorem unplaced_of_isAtom {d : Datum} (h : d.isAtom = true) : d.unplaced = d := by
  cases d <;> simp_all [unplaced, isAtom]

/-- The positions of a list do not matter. -/
theorem unplaced_ofList (pos : Option Pos) (tail : Datum) (ds : List Datum) :
    (ofList pos tail ds).unplaced = ofList none tail.unplaced (ds.map unplaced) := by
  induction ds generalizing pos with
  | nil => rfl
  | cons d ds ih => rw [ofList, unplaced, ih, List.map_cons, ofList]

theorem ofList_snoc (tail d : Datum) (ds : List Datum) :
    ofList none tail (ds ++ [d]) = ofList none (.cons none d tail) ds := by
  induction ds with
  | nil => rfl
  | cons d ds ih => rw [List.cons_append, ofList, ih, ofList]

end Datum

/-! ## What the printer writes -/

section
open Datum

/-- The printer appends the characters for the datum, whatever stands before. -/
def Printed (d : Datum) (s : List Char) : Prop := ∀ out, write true out d = out ++ String.ofList s

/-- The printer appends the characters for the datum as the rest of a list. -/
def PrintedTail (d : Datum) (s : List Char) : Prop :=
  ∀ out, writeTail true out d = out ++ String.ofList s

/-- The printer appends the characters for data in a row. -/
def PrintedRow (ds : List Datum) (s : List Char) : Prop :=
  ∀ out, writeItems true out ds = out ++ String.ofList s

/-- A list is printed with a mark if it is a quoting, and else between parentheses. -/
theorem write_cons (pos : Option Pos) (car cdr : Datum) :
    (∃ s mark pos' d, car = .sym s ∧ cdr = .cons pos' d .nil ∧ quoteMark? s = some mark ∧
      ∀ out, write true out (.cons pos car cdr) = write true (out ++ mark) d) ∨
    ∀ out, write true out (.cons pos car cdr) =
      writeTail true (write true (out ++ "(") car) cdr := by
  by_cases hpair : ∃ s pos' d, car = .sym s ∧ cdr = .cons pos' d .nil
  · obtain ⟨s, pos', d, rfl, rfl⟩ := hpair
    cases hmark : quoteMark? s with
    | some mark =>
      refine .inl ⟨s, mark, pos', d, rfl, rfl, hmark, fun out => ?_⟩
      rw [write, hmark]
    | none =>
      refine .inr fun out => ?_
      rw [write, hmark]
      simp only [writeTail, write, atomText]
  · refine .inr fun out => ?_
    rw [write]
    exact fun s pos' d hcar hcdr => hpair ⟨s, pos', d, hcar, hcdr⟩

/-- A last tail is printed behind a dot. -/
theorem PrintedTail.dotted {d : Datum} {s : List Char} (h : Printed d s) (hnil : d ≠ .nil)
    (hcons : ∀ pos car cdr, d ≠ .cons pos car cdr) :
    PrintedTail d (' ' :: '.' :: ' ' :: (s ++ [')'])) := by
  intro out
  have hwrite : writeTail true out d = write true (out ++ " . ") d ++ ")" := by
    cases d with
    | nil => exact absurd rfl hnil
    | cons pos car cdr => exact absurd rfl (hcons pos car cdr)
    | vector items | tuple items | map entries => simp [writeTail, write, String.append_assoc]
    | _ => simp only [writeTail, write]
  rw [hwrite, h]
  simp [← String.toList_inj]

theorem PrintedTail.nil : PrintedTail .nil [')'] := fun _ => rfl

theorem PrintedTail.cons {pos : Option Pos} {car cdr : Datum} {s t : List Char} (h : Printed car s)
    (h' : PrintedTail cdr t) : PrintedTail (.cons pos car cdr) (' ' :: (s ++ t)) := by
  intro out
  rw [writeTail, h, h']
  simp [String.append_assoc]

/-- Keys and values in a row. -/
def flatEntries (entries : List (Datum × Datum)) : List Datum :=
  entries.flatMap fun e => [e.1, e.2]

/-- Entries are printed like keys and values in a row. -/
theorem writeEntries_eq (out : String) (entries : List (Datum × Datum)) :
    writeEntries true out entries = writeItems true out (flatEntries entries) := by
  induction entries generalizing out with
  | nil => rfl
  | cons e entries ih =>
    obtain ⟨k, v⟩ := e
    cases entries with
    | nil => rfl
    | cons e' entries =>
      rw [writeEntries, ih, writeEntry]
      · rfl
      · exact nofun

theorem PrintedRow.nil : PrintedRow [] [] := fun out => by simp [writeItems]

theorem PrintedRow.single {d : Datum} {s : List Char} (h : Printed d s) : PrintedRow [d] s :=
  fun out => h out

theorem PrintedRow.cons {d d' : Datum} {ds : List Datum} {s t : List Char} (h : Printed d s)
    (h' : PrintedRow (d' :: ds) t) : PrintedRow (d :: d' :: ds) (s ++ ' ' :: t) := by
  intro out
  rw [writeItems, h, h']
  · simp [← String.toList_inj]
  · exact nofun

theorem PrintedRow.vector {items : List Datum} {s : List Char} (h : PrintedRow items s) :
    Printed (.vector items) ('[' :: (s ++ [']'])) := by
  intro out
  rw [write, h]
  simp [← String.toList_inj]

theorem PrintedRow.map {entries : List (Datum × Datum)} {s : List Char}
    (h : PrintedRow (flatEntries entries) s) :
    Printed (.map entries) ('\x7b' :: (s ++ ['\x7d'])) := by
  intro out
  rw [write, writeEntries_eq, h]
  simp [← String.toList_inj]

end

/-! ## How the lexer cuts it -/

open TemplateLisp.Derivation (tokens tokensAll datumAll)

/-- The characters at the place are cut into the tokens of the tree, which denotes the datum. Only
the symbol of the dot is cut into a dot. -/
structure Spelling (p : Pos) (s : List Char) (d : Datum) (x : Derivation) : Prop where
  cuts : Lexer.Cuts p s x.tokens
  valid : x.Valid
  decodable : ∀ t ∈ x.tokens, t.Decodable
  denotes : x.datum.unplaced = d.unplaced
  dot : x.StartsWithDot → d = .sym ⟨"."⟩

/-- The characters spell the datum wherever they stand. -/
def Spells (s : List Char) (d : Datum) : Prop := ∀ p, ∃ x, Spelling p s d x

/-- The characters at the place are cut into tokens that make a list of every row of elements, with
the datum as the rest of the list. -/
structure TailSpelling (p : Pos) (s : List Char) (d : Datum) (ts : List Token) : Prop where
  cuts : Lexer.Cuts p s ts
  decodable : ∀ t ∈ ts, t.Decodable
  completes : ∀ (opener : Token) (row : List Derivation), opener.kind = .openParen → row ≠ [] →
    (∀ x ∈ row, x.Valid) → (∀ x ∈ row, ¬ x.StartsWithDot) →
    ∃ x : Derivation, x.Valid ∧ x.tokens = opener :: (tokensAll row ++ ts) ∧
      x.datum.unplaced = (Datum.ofList none d (datumAll row)).unplaced

/-- The characters spell the rest of a list wherever they stand. -/
def TailSpells (s : List Char) (d : Datum) : Prop :=
  Lexer.Delimited s ∧ ∀ p, ∃ ts, TailSpelling p s d ts

/-- The characters spell the data in a row wherever they stand. -/
def RowSpells (s : List Char) (ds : List Datum) : Prop :=
  ∀ p, ∃ xs, Lexer.Cuts p s (tokensAll xs) ∧ (∀ x ∈ xs, x.Valid) ∧
    (∀ t ∈ tokensAll xs, t.Decodable) ∧ (datumAll xs).map Datum.unplaced = ds.map Datum.unplaced

theorem decodable_of_ne {t : Token} (hsymbol : t.kind ≠ .symbol) (hstring : t.kind ≠ .string) :
    t.Decodable := ⟨fun h => absurd h hsymbol, fun h => absurd h hstring⟩

/-- A text of symbol characters spells what it denotes. -/
theorem spells_atom {text : String} {d : Datum} (htext : Lexer.IsSymbolText text)
    (hparse : Atom.parse text = .ok d) : Spells text.toList d := by
  intro p
  have hdatum : Derivation.atomDatum ⟨.symbol, text, p⟩ = d := by
    rw [Derivation.atomDatum, hparse]
  refine ⟨.atom ⟨.symbol, text, p⟩, Lexer.cuts_symbol htext p, .atom rfl ?_, ?_, ?_, ?_⟩
  · rw [hparse]
    nofun
  · rintro t (_ | ⟨_, ⟨⟩⟩)
    refine ⟨fun _ n => ?_, nofun⟩
    rw [hparse]
    nofun
  · rw [Derivation.datum, hdatum]
  · rintro ⟨t, ts, ht, -, hdot⟩
    obtain ⟨rfl, -⟩ := List.cons.inj ht
    have hd : Atom.parse "." = .ok d := hdot ▸ hparse
    exact (Except.ok.inj hd).symm

/-- A printed text spells the text. -/
theorem spells_string (s : String) : Spells (stringLiteral s).toList (.str s) := by
  intro p
  have hlist : (stringLiteral s).toList = '"' :: (s.toList.flatMap escapeChar ++ ['"']) := by
    rw [stringLiteral, String.toList_ofList, List.singleton_append, List.cons_append]
  have hcuts := Lexer.cuts_string (Lexer.inString_flatMap_escapeChar s.toList) p
  rw [← hlist, String.ofList_toList] at hcuts
  have hdatum : Derivation.stringDatum ⟨.string, stringLiteral s, p⟩ = .str s := by
    rw [Derivation.stringDatum, decode_stringLiteral]
    exact Datum.ofCodes_toNat s
  refine ⟨.string ⟨.string, stringLiteral s, p⟩, hcuts, .string rfl fun digits => ?_, ?_, ?_, ?_⟩
  · rw [decode_stringLiteral]
    simp
  · rintro t (_ | ⟨_, ⟨⟩⟩)
    refine ⟨by simp, fun _ => ?_⟩
    rw [decode_stringLiteral]
    simp
  · rw [Derivation.datum, hdatum]
  · rintro ⟨t, ts, ht, hkind, -⟩
    obtain ⟨rfl, -⟩ := List.cons.inj ht
    cases hkind

/-! ### Rows -/

theorem RowSpells.nil : RowSpells [] [] :=
  fun _ => ⟨[], Lexer.Cuts.nil, by simp, by simp [tokensAll], rfl⟩

theorem RowSpells.single {s : List Char} {d : Datum} (h : Spells s d) : RowSpells s [d] := by
  intro p
  obtain ⟨x, hx⟩ := h p
  have htokens : tokensAll [x] = x.tokens := by simp [tokensAll]
  refine ⟨[x], ?_, ?_, ?_, ?_⟩
  · rw [htokens]
    exact hx.cuts
  · simpa using hx.valid
  · rw [htokens]
    exact hx.decodable
  · simp [datumAll, hx.denotes]

theorem RowSpells.cons {s t : List Char} {d : Datum} {ds : List Datum} (h : Spells s d)
    (h' : RowSpells t ds) : RowSpells (s ++ ' ' :: t) (d :: ds) := by
  intro p
  obtain ⟨x, hx⟩ := h p
  obtain ⟨xs, hcuts, hvalid, hdecodable, hdenotes⟩ := h' ((p.past s).after ' ')
  refine ⟨x :: xs, ?_, ?_, ?_, ?_⟩
  · exact hx.cuts.append hcuts.blank (Lexer.delimited_cons (by decide) t)
  · exact List.forall_mem_cons.2 ⟨hx.valid, hvalid⟩
  · rw [tokensAll, List.forall_mem_append]
    exact ⟨hx.decodable, hdecodable⟩
  · rw [datumAll, List.map_cons, hdenotes, hx.denotes, List.map_cons]

/-- A row between brackets is cut into the brackets and the row. -/
theorem cuts_enclosed {o c : Char} {opens closes : TokenKind} {s : List Char} {ts : List Token}
    {p : Pos} (ho : Text.isBlank o = false) (ho' : Lexer.single? o = some opens)
    (hc : Text.isBlank c = false) (hc' : Lexer.single? c = some closes)
    (h : Lexer.Cuts (p.after o) s ts) : ∃ q, Lexer.Cuts p (o :: (s ++ [c]))
      (⟨opens, String.ofList [o], p⟩ :: (ts ++ [⟨closes, String.ofList [c], q⟩])) := by
  have hdelimited : Lexer.Delimited [c] := by
    refine Lexer.delimited_cons ?_ []
    simp [Lexer.isSymbolChar, hc']
  exact ⟨(p.after o).past s, .single ho ho' (h.append (.single hc hc' .nil) hdelimited)⟩

theorem RowSpells.vector {s : List Char} {items : List Datum} (h : RowSpells s items) :
    Spells ('[' :: (s ++ [']'])) (.vector items) := by
  intro p
  obtain ⟨xs, hrow, hvalid, hdecodable, hdenotes⟩ := h (p.after '[')
  obtain ⟨q, hcuts⟩ := cuts_enclosed (o := '[') (c := ']') (by decide) rfl (by decide) rfl hrow
  refine ⟨.vector ⟨.openBracket, "[", p⟩ xs ⟨.closeBracket, "]", q⟩, hcuts, .vector rfl rfl hvalid,
    ?_, ?_, ?_⟩
  · simp only [tokens, List.forall_mem_cons, List.forall_mem_append]
    exact ⟨decodable_of_ne (by simp) (by simp), hdecodable,
      decodable_of_ne (by simp) (by simp), by simp⟩
  · rw [Derivation.datum, Datum.unplaced, Datum.unplaced, Datum.unplacedAll_eq_map, hdenotes,
      Datum.unplacedAll_eq_map]
  · rintro ⟨t, ts, ht, hkind, -⟩
    obtain ⟨rfl, -⟩ := List.cons.inj ht
    cases hkind

/-! ### Maps -/

theorem putEntry_of_distinct {done : List (Datum × Datum)} {k : Datum}
    (h : ∀ e ∈ done, Datum.sameKey e.1 k = false) (v : Datum) :
    Datum.putEntry k v done = done ++ [(k, v)] := by
  induction done with
  | nil => rfl
  | cons e done ih =>
    obtain ⟨k', v'⟩ := e
    have hk : ¬ Datum.sameKey k' k = true := by simp [h (k', v') (.head _)]
    rw [Datum.putEntry, if_neg hk, ih fun e he => h e (.tail _ he), List.cons_append]

/-- Entries with distinct keys stay as they are written. -/
theorem written_of_distinct {entries : List (Datum × Datum)}
    (h : entries.Pairwise fun e f => Datum.sameKey e.1 f.1 = false) :
    Derivation.written entries = entries := by
  have hfold : ∀ done rest : List (Datum × Datum),
      (done ++ rest).Pairwise (fun e f => Datum.sameKey e.1 f.1 = false) →
      rest.foldl (fun es e => Datum.putEntry e.1 e.2 es) done = done ++ rest := by
    intro done rest hdistinct
    induction rest generalizing done with
    | nil => simp
    | cons e rest ih =>
      have hnew : ∀ f ∈ done, Datum.sameKey f.1 e.1 = false := fun f hf =>
        (List.pairwise_append.1 hdistinct).2.2 f hf e (.head _)
      have happend : done ++ e :: rest = done ++ [(e.1, e.2)] ++ rest := by simp
      rw [List.foldl_cons, putEntry_of_distinct hnew, happend]
      rw [happend] at hdistinct
      exact ih _ hdistinct
  exact hfold [] entries h

theorem datumAll_flatten (es : List (Derivation × Derivation)) :
    datumAll (Derivation.flatten es) = flatEntries (Derivation.datumEntries es) := by
  induction es with
  | nil => rfl
  | cons e es ih =>
    obtain ⟨k, v⟩ := e
    show k.datum :: v.datum :: datumAll (Derivation.flatten es) = _
    rw [ih, Derivation.datumEntries, Derivation.datumEntry]
    rfl

theorem length_flatEntries (es : List (Datum × Datum)) :
    (flatEntries es).length = 2 * es.length := by
  induction es with
  | nil => rfl
  | cons e es ih =>
    show (flatEntries es).length + 2 = 2 * (es.length + 1)
    omega

/-- Rows of keys and values that agree are entries that agree. -/
theorem map_flatEntries_inj {es es' : List (Datum × Datum)} {f : Datum → Datum}
    (h : (flatEntries es).map f = (flatEntries es').map f) :
    es.map (fun e => (f e.1, f e.2)) = es'.map (fun e => (f e.1, f e.2)) := by
  induction es generalizing es' with
  | nil =>
    cases es' with
    | nil => rfl
    | cons e' es' => simp [flatEntries] at h
  | cons e es ih =>
    cases es' with
    | nil => simp [flatEntries] at h
    | cons e' es' =>
      simp only [flatEntries, List.flatMap_cons, List.cons_append, List.nil_append, List.map_cons,
        List.cons.injEq] at h
      obtain ⟨hk, hv, hrest⟩ := h
      rw [List.map_cons, List.map_cons, hk, hv, ih hrest]

/-- Keys that are atoms carry no position. -/
theorem map_fst_eq {es es' : List (Datum × Datum)}
    (h : es.map (fun e => (e.1.unplaced, e.2.unplaced)) =
      es'.map (fun e => (e.1.unplaced, e.2.unplaced)))
    (atoms : ∀ e ∈ es', e.1.isAtom = true) : es.map (·.1) = es'.map (·.1) := by
  induction es generalizing es' with
  | nil =>
    cases es' with
    | nil => rfl
    | cons e' es' => simp at h
  | cons e es ih =>
    cases es' with
    | nil => simp at h
    | cons e' es' =>
      rw [List.map_cons, List.map_cons, List.cons.injEq, Prod.mk.injEq] at h
      obtain ⟨⟨hk, -⟩, hrest⟩ := h
      have hatom' : e'.1.isAtom = true := atoms e' (.head _)
      have hatom : e.1.isAtom = true := by
        rw [← Datum.isAtom_unplaced, hk, Datum.isAtom_unplaced, hatom']
      rw [Datum.unplaced_of_isAtom hatom, Datum.unplaced_of_isAtom hatom'] at hk
      rw [List.map_cons, List.map_cons, hk, ih hrest fun e he => atoms e (.tail _ he)]

theorem RowSpells.map {s : List Char} {entries : List (Datum × Datum)}
    (h : RowSpells s (flatEntries entries)) (atoms : ∀ e ∈ entries, e.1.isAtom = true)
    (distinct : entries.Pairwise fun e f => Datum.sameKey e.1 f.1 = false) :
    Spells ('\x7b' :: (s ++ ['\x7d'])) (.map entries) := by
  intro p
  obtain ⟨xs, hrow, hvalid, hdecodable, hdenotes⟩ := h (p.after '\x7b')
  obtain ⟨q, hcuts⟩ :=
    cuts_enclosed (o := '\x7b') (c := '\x7d') (by decide) rfl (by decide) rfl hrow
  -- the row is a row of keys and values, since it is as long as one
  have hlength : xs.length = 2 * entries.length := by
    have hlen := congrArg List.length hdenotes
    rwa [List.length_map, List.length_map, Derivation.datumAll_eq_map, List.length_map,
      length_flatEntries] at hlen
  obtain ⟨es, rfl⟩ := Derivation.exists_flatten (by omega : xs.length % 2 = 0)
  rw [datumAll_flatten] at hdenotes
  have hentries := map_flatEntries_inj hdenotes
  have hkeys := map_fst_eq hentries atoms
  have hatoms : ∀ e ∈ es, e.1.datum.isAtom = true := by
    intro e he
    have hmem : e.1.datum ∈ entries.map (·.1) :=
      hkeys ▸ List.mem_map.2 ⟨_, Derivation.mem_datumEntries he, by rw [Derivation.datumEntry]⟩
    obtain ⟨f, hf, heq⟩ := List.mem_map.1 hmem
    rw [← heq]
    exact atoms f hf
  have hdistinct : (Derivation.datumEntries es).Pairwise fun e f =>
      Datum.sameKey e.1 f.1 = false := by
    have hpairs : (entries.map (·.1)).Pairwise fun k k' => Datum.sameKey k k' = false :=
      List.pairwise_map.2 distinct
    rw [← hkeys] at hpairs
    exact List.pairwise_map.1 hpairs
  refine ⟨.map ⟨.openBrace, "\x7b", p⟩ es ⟨.closeBrace, "\x7d", q⟩, ?_, .map rfl rfl hvalid hatoms,
    ?_, ?_, ?_⟩
  · rw [tokens, Derivation.tokensEntries_eq]
    exact hcuts
  · simp only [tokens, Derivation.tokensEntries_eq, List.forall_mem_cons, List.forall_mem_append]
    exact ⟨decodable_of_ne (by simp) (by simp), hdecodable,
      decodable_of_ne (by simp) (by simp), by simp⟩
  · rw [Derivation.datum, written_of_distinct hdistinct, Datum.unplaced, Datum.unplaced,
      Datum.unplacedEntries_eq_map, hentries, Datum.unplacedEntries_eq_map]
  · rintro ⟨t, ts, ht, hkind, -⟩
    obtain ⟨rfl, -⟩ := List.cons.inj ht
    cases hkind

/-! ### Quoted forms -/

/-- A mark is cut off as a token of its own, save for a comma in front of an at sign. -/
theorem cuts_mark {a : Symbol} {mark : String} (hmark : quoteMark? a = some mark) {s : List Char}
    {ts : List Token} {p : Pos} (h : Lexer.Cuts (p.past mark.toList) s ts) (hne : s ≠ [])
    (hat : mark = "," → s.head? ≠ some '@') :
    ∃ kind, (kind = .quote ∨ kind = .unquote) ∧ Parser.quoteSymbol mark = a ∧
      Lexer.Cuts p (mark.toList ++ s) (⟨kind, mark, p⟩ :: ts) := by
  obtain ⟨name⟩ := a
  unfold quoteMark? at hmark
  split at hmark
  · rename_i hname
    cases hmark
    cases hname
    exact ⟨.quote, .inl rfl, rfl, .single (by decide) rfl h⟩
  split at hmark
  · rename_i hname
    cases hmark
    cases hname
    exact ⟨.quote, .inl rfl, rfl, .single (by decide) rfl h⟩
  split at hmark
  · rename_i hname
    cases hmark
    cases hname
    exact ⟨.unquote, .inr rfl, rfl, .comma (hat rfl) hne h⟩
  split at hmark
  · rename_i hname
    cases hmark
    cases hname
    exact ⟨.unquote, .inr rfl, rfl, .commaAt h⟩
  · cases hmark

/-- A spelling is not empty: it has the tokens of a tree. -/
theorem Spelling.ne_nil {p : Pos} {s : List Char} {d : Datum} {x : Derivation}
    (h : Spelling p s d x) : s ≠ [] := by
  rintro rfl
  obtain ⟨t, ts, ht, -⟩ := h.valid.head
  have hscan := h.cuts [] [] Lexer.delimited_nil
  simp [Lexer.scan, Lexer.finish, ht] at hscan

theorem Spells.quoted {a : Symbol} {mark : String} (hmark : quoteMark? a = some mark)
    {s : List Char} {d : Datum} (h : Spells s d) (hat : mark = "," → s.head? ≠ some '@')
    (pos pos' : Option Pos) :
    Spells (mark.toList ++ s) (.cons pos (.sym a) (.cons pos' d .nil)) := by
  intro p
  obtain ⟨x, hx⟩ := h (p.past mark.toList)
  obtain ⟨kind, hkind, hsymbol, hcuts⟩ := cuts_mark hmark hx.cuts hx.ne_nil hat
  refine ⟨.quoted ⟨kind, mark, p⟩ x, hcuts, .quoted hkind hx.valid, ?_, ?_, ?_⟩
  · refine List.forall_mem_cons.2 ⟨decodable_of_ne ?_ ?_, hx.decodable⟩
    · rcases hkind with rfl | rfl <;> nofun
    · rcases hkind with rfl | rfl <;> nofun
  · simp [Derivation.datum, Datum.ofList, Datum.unplaced, hsymbol, hx.denotes]
  · rintro ⟨t, ts, ht, hsym, -⟩
    obtain ⟨rfl, -⟩ := List.cons.inj ht
    rcases hkind with rfl | rfl <;> cases hsym

/-! ### Lists -/

theorem TailSpells.nil : TailSpells [')'] .nil := by
  refine ⟨Lexer.delimited_cons (by decide) [], fun p => ⟨[⟨.closeParen, ")", p⟩], ?_, ?_, ?_⟩⟩
  · exact .single (by decide) rfl .nil
  · exact List.forall_mem_cons.2 ⟨decodable_of_ne nofun nofun, nofun⟩
  · intro opener row hopen _ hvalid hdot
    refine ⟨.list opener row ⟨.closeParen, ")", p⟩, .list hopen rfl hvalid hdot, rfl, ?_⟩
    rw [Derivation.datum, Datum.unplaced_ofList, Datum.unplaced_ofList]

theorem TailSpells.cons {s t : List Char} {a c : Datum} (h : Spells s a) (ha : a ≠ .sym ⟨"."⟩)
    (h' : TailSpells t c) (pos : Option Pos) : TailSpells (' ' :: (s ++ t)) (.cons pos a c) := by
  refine ⟨Lexer.delimited_cons (by decide) _, fun p => ?_⟩
  obtain ⟨x, hx⟩ := h (p.after ' ')
  obtain ⟨ts, hts⟩ := h'.2 ((p.after ' ').past s)
  refine ⟨x.tokens ++ ts, ?_, ?_, ?_⟩
  · exact (hx.cuts.append hts.cuts h'.1).blank
  · exact List.forall_mem_append.2 ⟨hx.decodable, hts.decodable⟩
  · intro opener row hopen _ hvalid hdot
    have hvalid' : ∀ y ∈ row ++ [x], y.Valid :=
      List.forall_mem_append.2 ⟨hvalid, List.forall_mem_singleton.2 hx.valid⟩
    have hdot' : ∀ y ∈ row ++ [x], ¬ y.StartsWithDot :=
      List.forall_mem_append.2 ⟨hdot, List.forall_mem_singleton.2 fun hstarts =>
        ha (hx.dot hstarts)⟩
    obtain ⟨y, hy, htokens, hdatum⟩ :=
      hts.completes opener (row ++ [x]) hopen (by simp) hvalid' hdot'
    refine ⟨y, hy, ?_, ?_⟩
    · simp [htokens, Derivation.tokensAll_eq_flatMap]
    · rw [hdatum, Datum.unplaced_ofList, Datum.unplaced_ofList, Derivation.datumAll_eq_map,
        Derivation.datumAll_eq_map, List.map_append, List.map_append, List.map_singleton,
        List.map_singleton, hx.denotes, Datum.ofList_snoc, Datum.unplaced]

theorem isSymbolText_dot : Lexer.IsSymbolText "." := ⟨by decide, by decide⟩

theorem TailSpells.dotted {s : List Char} {d : Datum} (h : Spells s d) :
    TailSpells (' ' :: '.' :: ' ' :: (s ++ [')'])) d := by
  refine ⟨Lexer.delimited_cons (by decide) _, fun p => ?_⟩
  obtain ⟨x, hx⟩ := h (((p.after ' ').after '.').after ' ')
  obtain ⟨closer, hcloser, hcuts⟩ : ∃ closer : Token, closer.kind = .closeParen ∧
      Lexer.Cuts (((p.after ' ').after '.').after ' ') (s ++ [')']) (x.tokens ++ [closer]) :=
    ⟨_, rfl, hx.cuts.append (.single (by decide) rfl .nil) (Lexer.delimited_cons (by decide) [])⟩
  have hdot : Lexer.Cuts (p.after ' ') ['.'] [⟨.symbol, ".", p.after ' '⟩] :=
    Lexer.cuts_symbol isSymbolText_dot _
  refine ⟨⟨.symbol, ".", p.after ' '⟩ :: (x.tokens ++ [closer]), ?_, ?_, ?_⟩
  · exact .blank (hdot.append hcuts.blank (Lexer.delimited_cons (by decide) _))
  · have hdecodable : Token.Decodable ⟨.symbol, ".", p.after ' '⟩ :=
      ⟨fun _ n => show Atom.parse "." ≠ _ from nofun, nofun⟩
    have hclosing : closer.Decodable :=
      decodable_of_ne (by rw [hcloser]; nofun) (by rw [hcloser]; nofun)
    simp only [List.forall_mem_cons, List.forall_mem_append]
    exact ⟨hdecodable, hx.decodable, hclosing, nofun⟩
  · intro opener row hopen hne hvalid hrow
    refine ⟨.dotted opener row _ x closer,
      .dotted hopen hcloser hvalid hrow hne rfl rfl hx.valid, rfl, ?_⟩
    rw [Derivation.datum, Datum.unplaced_ofList, Datum.unplaced_ofList, hx.denotes]

theorem TailSpells.list {s t : List Char} {a c : Datum} (h : Spells s a) (ha : a ≠ .sym ⟨"."⟩)
    (h' : TailSpells t c) (pos : Option Pos) : Spells ('(' :: (s ++ t)) (.cons pos a c) := by
  intro p
  obtain ⟨x, hx⟩ := h (p.after '(')
  obtain ⟨ts, hts⟩ := h'.2 ((p.after '(').past s)
  have hcuts : Lexer.Cuts p ('(' :: (s ++ t)) (⟨.openParen, "(", p⟩ :: (x.tokens ++ ts)) :=
    .single (by decide) rfl (hx.cuts.append hts.cuts h'.1)
  obtain ⟨y, hy, htokens, hdatum⟩ := hts.completes ⟨.openParen, "(", p⟩ [x] rfl (by simp)
    (List.forall_mem_singleton.2 hx.valid)
    (List.forall_mem_singleton.2 fun hstarts => ha (hx.dot hstarts))
  rw [tokensAll, tokensAll, List.append_nil] at htokens
  refine ⟨y, ?_, hy, ?_, ?_, ?_⟩
  · rw [htokens]
    exact hcuts
  · rw [htokens, List.forall_mem_cons, List.forall_mem_append]
    exact ⟨decodable_of_ne (by simp) (by simp), hx.decodable, hts.decodable⟩
  · simp only [hdatum, datumAll, Datum.ofList, Datum.unplaced, hx.denotes]
  · rintro ⟨u, us, hu, hkind, -⟩
    rw [htokens] at hu
    obtain ⟨rfl, -⟩ := List.cons.inj hu
    cases hkind

end TemplateLisp
