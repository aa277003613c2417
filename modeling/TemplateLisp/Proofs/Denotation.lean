import Mathlib.Data.List.Forall2
import TemplateLisp.Proofs.LexingParts
import TemplateLisp.Proofs.StringBodies

/-!
# What a tree denotes

`Derivation.Denotes d x` says in rules what a tree of the grammar denotes: a list is a row of pairs
one inside the other, of which the first carries the place of the bracket, and without elements it
is `nil`; a quote mark is a list of the symbol that it stands for and its operand; a map has the
first key of every kind with the last value that is written under it. `StringLiteral.Denotes` does
the same for the body of a string. Neither mentions the parser or its helpers.

`Derivation.Valid.denotes_iff`: a valid tree, cut from a text, denotes its `Derivation.datum` and
nothing else.
-/

namespace TemplateLisp

/-! ## Strings -/

namespace StringLiteral

/-- The letters that an escape gives another meaning. -/
def letterEscapes : List (Char × Char) :=
  [('n', '\n'), ('t', '\t'), ('r', '\r'), ('0', Char.ofNat 0)]

/-- The number that is written in hexadecimal digits. -/
def hexNumber (digits : List Char) : Nat :=
  digits.foldl (fun n c => 16 * n + "0123456789abcdef".toList.idxOf c.toLower) 0

/-- A line end of one of the three kinds, with what follows it. -/
inductive LineEnd : List Char → List Char → Prop where
  | feed {rest : List Char} : LineEnd ['\n'] rest
  | both {rest : List Char} : LineEnd ['\r', '\n'] rest
  | turn {rest : List Char} (alone : rest.head? ≠ some '\n') : LineEnd ['\r'] rest

/-- The body of a literal denotes the code points. -/
inductive Denotes : List Char → List Nat → Prop where
  | nil : Denotes [] []
  | plain {c : Char} {rest : List Char} {codes : List Nat} (slash : c ≠ '\\')
      (feed : c ≠ '\n') (turn : c ≠ '\r') (behind : Denotes rest codes) :
      Denotes (c :: rest) (c.toNat :: codes)
  | lineEnd {ending rest : List Char} {codes : List Nat} (ends : LineEnd ending rest)
      (behind : Denotes rest codes) : Denotes (ending ++ rest) ('\n'.toNat :: codes)
  /-- A line end behind a backslash vanishes. -/
  | continued {ending rest : List Char} {codes : List Nat} (ends : LineEnd ending rest)
      (behind : Denotes rest codes) : Denotes ('\\' :: (ending ++ rest)) codes
  /-- The four digits may be those of half of a surrogate pair. -/
  | unicode {digits rest : List Char} {codes : List Nat} (four : digits.length = 4)
      (hex : digits.all isHexDigit = true) (behind : Denotes rest codes) :
      Denotes ('\\' :: 'u' :: (digits ++ rest)) (hexNumber digits :: codes)
  | letter {c d : Char} {rest : List Char} {codes : List Nat}
      (known : letterEscapes.lookup c = some d) (behind : Denotes rest codes) :
      Denotes ('\\' :: c :: rest) (d.toNat :: codes)
  | itself {c : Char} {rest : List Char} {codes : List Nat}
    (unknown : letterEscapes.lookup c = none)
      (unicode : c ≠ 'u') (feed : c ≠ '\n') (turn : c ≠ '\r') (behind : Denotes rest codes) :
      Denotes ('\\' :: c :: rest) (c.toNat :: codes)

/-- The value of a hexadecimal digit is its place in the row of all of them. -/
theorem hexValue?_eq {c : Char} (h : isHexDigit c = true) :
    hexValue? c = some ("0123456789abcdef".toList.idxOf c.toLower) := by
  have hall : ("0123456789abcdefABCDEF".toList.all fun d =>
      hexValue? d == some ("0123456789abcdef".toList.idxOf d.toLower)) = true := by decide +kernel
  exact eq_of_beq (List.all_eq_true.1 hall c (List.contains_iff_mem.1 h))

theorem unicodeCode?_eq_some {a b c d : Char} (h : [a, b, c, d].all isHexDigit = true) :
    unicodeCode? a b c d = some (hexNumber [a, b, c, d]) := by
  simp only [List.all_cons, List.all_nil, Bool.and_true, Bool.and_eq_true] at h
  obtain ⟨ha, hb, hc, hd⟩ := h
  simp only [unicodeCode?, hexValue?_eq ha, hexValue?_eq hb, hexValue?_eq hc, hexValue?_eq hd,
    Option.bind_eq_bind, Option.bind_some, hexNumber, List.foldl_cons, List.foldl_nil]
  exact congrArg some (by omega)

/-- Only hexadecimal digits have a code point. -/
theorem all_isHexDigit_of_unicodeCode? {a b c d : Char} {code : Nat}
    (h : unicodeCode? a b c d = some code) : [a, b, c, d].all isHexDigit = true := by
  have hstarts : startsWithCode [a, b, c, d] = true := by
    rw [← isSome_unicodeCode?, h, Option.isSome_some]
  simpa [startsWithCode] using hstarts

theorem escaped_eq (c : Char) : escaped c = (letterEscapes.lookup c).getD c := by
  simp only [escaped, letterEscapes, List.lookup_cons, List.lookup_nil]
  repeat' split
  all_goals simp_all

theorem lookup_letterEscapes_ne {c d : Char} (h : letterEscapes.lookup c = some d) :
    c ≠ 'u' ∧ c ≠ '\n' ∧ c ≠ '\r' := by
  refine ⟨?_, ?_, ?_⟩ <;> rintro rfl <;> cases h

/-- An escape of one letter. -/
theorem decodeBody_escape {c : Char} (hunicode : c ≠ 'u') (hfeed : c ≠ '\n') (hturn : c ≠ '\r')
    (out : List Nat) (rest : List Char) :
    decodeBody out ('\\' :: c :: rest) = decodeBody ((escaped c).toNat :: out) rest := by
  rw [decodeBody] <;> simp_all

theorem head?_ne_lineFeed_iff {rest : List Char} :
    rest.head? ≠ some '\n' ↔ ∀ rest', rest = '\n' :: rest' → False := by
  rw [Ne, List.head?_eq_some_iff]
  exact not_exists

/-- What the decoder pushes is what the body denotes. -/
theorem denotes_of_decodeBody {out result : List Nat} {body : List Char}
    (h : decodeBody out body = .ok result) :
    ∃ codes, Denotes body codes ∧ result = out.reverse ++ codes := by
  have push {code : Nat} {out result : List Nat} {body rest : List Char}
      (hbody : ∀ codes, Denotes rest codes → Denotes body (code :: codes))
      (h : ∃ codes, Denotes rest codes ∧ result = (code :: out).reverse ++ codes) :
      ∃ codes, Denotes body codes ∧ result = out.reverse ++ codes := by
    obtain ⟨codes, hrest, rfl⟩ := h
    exact ⟨code :: codes, hbody codes hrest, by simp⟩
  fun_induction decodeBody out body with
  | case1 out =>
    cases h
    exact ⟨[], .nil, by simp⟩
  | case2 | case7 | case8 => cases h
  | case3 out rest ih =>
    obtain ⟨codes, hrest, hresult⟩ := ih h
    exact ⟨codes, .continued .feed hrest, hresult⟩
  | case4 out rest ih =>
    obtain ⟨codes, hrest, hresult⟩ := ih h
    exact ⟨codes, .continued .both hrest, hresult⟩
  | case5 out rest hnext ih =>
    obtain ⟨codes, hrest, hresult⟩ := ih h
    exact ⟨codes, .continued (.turn (head?_ne_lineFeed_iff.2 hnext)) hrest, hresult⟩
  | case6 out a b c d rest code hcode ih =>
    have hdigits := all_isHexDigit_of_unicodeCode? hcode
    obtain rfl : hexNumber [a, b, c, d] = code :=
      Option.some.inj ((unicodeCode?_eq_some hdigits).symm.trans hcode)
    exact push (fun _ => Denotes.unicode rfl hdigits) (ih h)
  | case9 out c rest hline _ hcr _ hshort ih =>
    have hescaped := escaped_eq c
    cases hlookup : letterEscapes.lookup c with
    | none =>
      rw [hlookup, Option.getD_none] at hescaped
      rw [hescaped] at ih h
      exact push (fun _ => .itself hlookup hshort hline hcr) (ih h)
    | some d =>
      rw [hlookup, Option.getD_some] at hescaped
      rw [hescaped] at ih h
      exact push (fun _ => .letter hlookup) (ih h)
  | case10 out rest ih => exact push (fun _ => .lineEnd .both) (ih h)
  | case11 out rest hnext ih =>
    exact push (fun _ => .lineEnd (.turn (head?_ne_lineFeed_iff.2 hnext))) (ih h)
  | case12 out c rest hlast _ _ _ _ _ hnext hcrlf hcr ih =>
    have hslash : c ≠ '\\' := fun hc => by
      cases rest with
      | nil => exact hlast hc rfl
      | cons d rest => exact hnext d rest hc rfl
    by_cases hfeed : c = '\n'
    · subst hfeed
      exact push (fun _ => .lineEnd .feed) (ih h)
    · exact push (fun _ => .plain hslash hfeed hcr) (ih h)

/-- What a body denotes is what the decoder pushes. -/
theorem Denotes.decodeBody_eq {body : List Char} {codes : List Nat} (h : Denotes body codes)
    (out : List Nat) : decodeBody out body = .ok (out.reverse ++ codes) := by
  induction h generalizing out with
  | nil => simp [decodeBody]
  | @plain c rest codes slash feed turn _ ih =>
    rw [decodeBody, ih] <;> simp_all
  | @lineEnd ending rest codes ends _ ih =>
    cases ends with
    | feed | both => simp [decodeBody, ih]
    | turn alone =>
      have hbehind := head?_ne_lineFeed_iff.1 alone
      rw [List.singleton_append, decodeBody, ih]
      · simp
      · exact hbehind
  | @continued ending rest codes ends _ ih =>
    cases ends with
    | feed | both => exact ih out
    | turn alone =>
      have hbehind := head?_ne_lineFeed_iff.1 alone
      rw [List.singleton_append, decodeBody, ih]
      exact hbehind
  | @unicode digits rest codes four hex _ ih =>
    obtain ⟨a, b, c, d, rfl⟩ : ∃ a b c d, digits = [a, b, c, d] := List.length_eq_four.1 four
    have hcode := unicodeCode?_eq_some hex
    simp [decodeBody, hcode, ih]
  | @letter c d rest codes known _ ih =>
    obtain ⟨hunicode, hfeed, hturn⟩ := lookup_letterEscapes_ne known
    rw [decodeBody_escape hunicode hfeed hturn, ih, escaped_eq, known]
    simp
  | @itself c rest codes unknown unicode feed turn _ ih =>
    rw [decodeBody_escape unicode feed turn, ih, escaped_eq, unknown]
    simp

end StringLiteral

/-- Code points are those of a `String` or those of a wide text. -/
theorem Datum.ofCodes_cases (codes : List Nat) :
    (∃ s : String, codes = s.toList.map Char.toNat ∧ ofCodes codes = .str s) ∨
      ∃ s : WideText, codes = s.codes ∧ ofCodes codes = .wide s := by
  cases hvalid : codes.all fun n => decide n.isValidChar with
  | true =>
    refine .inl ⟨String.ofList (codes.map Char.ofNat), ?_, by rw [ofCodes, dif_pos hvalid]⟩
    rw [String.toList_ofList, List.map_map]
    refine (List.map_id codes).symm.trans (List.map_congr_left fun n hn => ?_)
    have hn : n.isValidChar := of_decide_eq_true (List.all_eq_true.1 hvalid n hn)
    rw [Function.comp_apply, Char.ofNat, dif_pos hn]
    rfl
  | false => exact .inr ⟨⟨codes, hvalid⟩, rfl, ofCodes_codes ⟨codes, hvalid⟩⟩

/-! ## Tokens -/

/-- What the lexer and the limit on literals give every token of a text. -/
structure Token.Sound (t : Token) : Prop where
  decodable : t.Decodable
  cut : Lexer.WellCut t
  mark : Lexer.MarkText t

/-! ## Maps -/

/-- Entries written one after the other come to the entries `written`: the first entry of a key
settles its place and its spelling, the last one its value. -/
inductive Overwrites : List (Datum × Datum) → List (Datum × Datum) → Prop where
  | nil : Overwrites [] []
  | cons {k v : Datum} {behind written : List (Datum × Datum)}
      (others : Overwrites (behind.filter fun e => !k.sameKey e.1) written) :
      Overwrites ((k, v) :: behind)
        ((k, ((behind.filter fun e => k.sameKey e.1).getLast?.map Prod.snd).getD v) :: written)

namespace Derivation

/-- Entries that are written behind the entry of a key replace its value or leave it alone. -/
theorem foldl_putEntry_cons (k v : Datum) (behind done : List (Datum × Datum)) :
    behind.foldl (fun es e => Datum.putEntry e.1 e.2 es) ((k, v) :: done) =
      (k, ((behind.filter fun e => k.sameKey e.1).getLast?.map Prod.snd).getD v) ::
        (behind.filter fun e => !k.sameKey e.1).foldl (fun es e =>
          Datum.putEntry e.1 e.2 es) done := by
  induction behind generalizing v done with
  | nil => rfl
  | cons e behind ih =>
    rw [List.foldl_cons, Datum.putEntry]
    cases hsame : k.sameKey e.1 with
    | true =>
      rw [if_pos rfl, ih]
      simp [hsame, List.getLast?_cons]
    | false =>
      rw [if_neg Bool.false_ne_true, ih]
      simp [hsame]

theorem overwrites_iff {es ys : List (Datum × Datum)} : Overwrites es ys ↔ ys = written es := by
  constructor
  · intro h
    induction h with
    | nil => rfl
    | cons _ ih => rw [written, List.foldl_cons, Datum.putEntry, foldl_putEntry_cons, ih, written]
  · rintro rfl
    induction hlength : es.length using Nat.strongRecOn generalizing es with
    | _ n ih =>
      cases es with
      | nil => exact .nil
      | cons e behind =>
        have hshorter : (behind.filter fun e' => !e.1.sameKey e'.1).length < n := by
          have hle := List.length_filter_le (fun e' => !e.1.sameKey e'.1) behind
          simp only [List.length_cons] at hlength
          omega
        rw [written, List.foldl_cons, Datum.putEntry, foldl_putEntry_cons]
        exact .cons (ih _ hshorter rfl)

/-! ## Trees -/

/-- The quote marks with the names of the symbols that they stand for. -/
def quoteNames : List (String × String) :=
  [("'", "quote"), ("`", "quasiquote"), (",", "unquote"), (",@", "unquote-splicing")]

/-- The tree denotes the datum. -/
inductive Denotes : Derivation → Datum → Prop where
  | atom {t : Token} {x : Datum} (parse : Atom.parse t.text = .ok x) : Denotes (.atom t) x
  | string {t : Token} {body : List Char} {s : String}
      (text : t.text = String.ofList ('"' :: (body ++ ['"'])))
      (codes : StringLiteral.Denotes body (s.toList.map Char.toNat)) : Denotes (.string t) (.str s)
  | wide {t : Token} {body : List Char} {s : WideText}
      (text : t.text = String.ofList ('"' :: (body ++ ['"'])))
      (codes : StringLiteral.Denotes body s.codes) : Denotes (.string t) (.wide s)
  | quoted {mark : Token} {operand : Derivation} {name : String} {x : Datum}
      (known : quoteNames.lookup mark.text = some name) (behind : Denotes operand x) :
      Denotes (.quoted mark operand) (.cons (some mark.pos) (.sym ⟨name⟩) (.cons none x .nil))
  | empty {opener closer : Token} : Denotes (.list opener [] closer) .nil
  | list {opener closer : Token} {d : Derivation} {ds : List Derivation} {x : Datum}
      {xs : List Datum} (first : Denotes d x) (others : List.Forall₂ Denotes ds xs) :
      Denotes (.list opener (d :: ds) closer)
        (.cons (some opener.pos) x (xs.foldr (.cons none) .nil))
  | dotted {opener dot closer : Token} {d last : Derivation} {ds : List Derivation} {x y : Datum}
      {xs : List Datum} (first : Denotes d x) (others : List.Forall₂ Denotes ds xs)
      (tail : Denotes last y) :
      Denotes (.dotted opener (d :: ds) dot last closer)
        (.cons (some opener.pos) x (xs.foldr (.cons none) y))
  | vector {opener closer : Token} {ds : List Derivation} {xs : List Datum}
      (items : List.Forall₂ Denotes ds xs) : Denotes (.vector opener ds closer) (.vector xs)
  | map {opener closer : Token} {entries : List (Derivation × Derivation)} {ks vs : List Datum}
      {es : List (Datum × Datum)} (keys : List.Forall₂ Denotes (entries.map Prod.fst) ks)
      (values : List.Forall₂ Denotes (entries.map Prod.snd) vs) (one : Overwrites (ks.zip vs) es) :
      Denotes (.map opener entries closer) (.map es)

theorem denotes_atom_iff {t : Token} (hkind : t.kind = .symbol) (ht : t.Decodable)
    (hspelt : Atom.parse t.text ≠ .error .malformedNumber) {x : Datum} :
    Denotes (.atom t) x ↔ x = atomDatum t := by
  have hatom : Atom.parse t.text = .ok (atomDatum t) := by
    have hdigits := ht.1 hkind
    unfold atomDatum
    cases hparse : Atom.parse t.text with
    | ok d => rfl
    | error f =>
      cases f with
      | malformedNumber => exact absurd hparse hspelt
      | tooManyDigits n => exact absurd hparse (hdigits n)
  constructor
  · rintro ⟨parse⟩
    exact Except.ok.inj (parse.symm.trans hatom)
  · rintro rfl
    exact .atom hatom

theorem stringDatum_of_denotes {t : Token} {body : List Char} {codes : List Nat}
    (htext : t.text = String.ofList ('"' :: (body ++ ['"'])))
    (hcodes : StringLiteral.Denotes body codes) : stringDatum t = .ofCodes codes := by
  rw [stringDatum, htext, StringLiteral.decode_ofList, hcodes.decodeBody_eq, List.reverse_nil,
    List.nil_append]

theorem denotes_string_iff {t : Token} (hkind : t.kind = .string) (ht : t.Sound)
    (hescapes : ∀ digits, StringLiteral.decode t.text ≠ .error
    (.badUnicodeEscape digits)) {x : Datum} :
    Denotes (.string t) x ↔ x = stringDatum t := by
  obtain ⟨body, htext, -⟩ := ht.cut.1 hkind
  constructor
  · rintro (_ | ⟨text, codes⟩ | ⟨text, codes⟩)
    · rw [stringDatum_of_denotes text codes, Datum.ofCodes_toNat]
    · rw [stringDatum_of_denotes text codes, Datum.ofCodes_codes]
  · rintro rfl
    cases hdecode : StringLiteral.decode t.text with
    | error f =>
      cases f with
      | badUnicodeEscape digits => exact absurd hdecode (hescapes digits)
      | openEscape => exact absurd hdecode (ht.decodable.2 hkind)
    | ok codes =>
      rw [htext, StringLiteral.decode_ofList] at hdecode
      obtain ⟨codes', hcodes, hresult⟩ := StringLiteral.denotes_of_decodeBody hdecode
      obtain rfl : codes = codes' := hresult
      rw [stringDatum_of_denotes htext hcodes]
      rcases Datum.ofCodes_cases codes with ⟨s, rfl, hs⟩ | ⟨s, rfl, hs⟩
      · rw [hs]
        exact .string htext hcodes
      · rw [hs]
        exact .wide htext hcodes

theorem lookup_quoteNames {mark : Token} (hkind : mark.kind = .quote ∨ mark.kind = .unquote)
    (hmark : Lexer.MarkText mark) :
    quoteNames.lookup mark.text = some (Parser.quoteSymbol mark.text).name := by
  rcases hkind with hkind | hkind
  · rcases hmark.2.1 hkind with htext | htext <;> rw [htext] <;> rfl
  · rcases hmark.2.2 hkind with htext | htext <;> rw [htext] <;> rfl

theorem ofList_none (tail : Datum) (xs : List Datum) :
    Datum.ofList none tail xs = xs.foldr (.cons none) tail := by
  induction xs with
  | nil => rfl
  | cons x xs ih => rw [Datum.ofList, ih, List.foldr_cons]

theorem datumEntries_eq_zip (es : List (Derivation × Derivation)) :
    datumEntries es = ((es.map Prod.fst).map datum).zip ((es.map Prod.snd).map datum) := by
  induction es with
  | nil => rfl
  | cons e es ih =>
    obtain ⟨k, v⟩ := e
    simp [datumEntries, datumEntry, ih]

theorem mem_flatten_of_mem_fst {es : List (Derivation × Derivation)} {d : Derivation}
    (h : d ∈ es.map Prod.fst) : d ∈ flatten es := by
  obtain ⟨e, he, rfl⟩ := List.mem_map.1 h
  exact List.mem_flatMap.2 ⟨e, he, .head _⟩

theorem mem_flatten_of_mem_snd {es : List (Derivation × Derivation)} {d : Derivation}
    (h : d ∈ es.map Prod.snd) : d ∈ flatten es := by
  obtain ⟨e, he, rfl⟩ := List.mem_map.1 h
  exact List.mem_flatMap.2 ⟨e, he, .tail _ (.head _)⟩

/-- Trees in a row denote data in a row. -/
theorem forall₂_denotes_iff {ds : List Derivation}
    (h : ∀ d ∈ ds, ∀ {x}, Denotes d x ↔ x = d.datum) {xs : List Datum} :
    List.Forall₂ Denotes ds xs ↔ xs = ds.map datum := by
  induction ds generalizing xs with
  | nil => rw [List.forall₂_nil_left_iff, List.map_nil]
  | cons d ds ih =>
    rw [List.forall₂_cons_left_iff, List.map_cons]
    constructor
    · rintro ⟨x, xs, hx, hxs, rfl⟩
      rw [(h d (.head _)).1 hx, (ih fun e he => h e (.tail _ he)).1 hxs]
    · rintro rfl
      exact ⟨_, _, (h d (.head _)).2 rfl, (ih fun e he => h e (.tail _ he)).2 rfl, rfl⟩

/-- Trees between an opening bracket and what ends them. -/
theorem enclosed_denotes_iff {ds : List Derivation}
    (h : ∀ d ∈ ds, (∀ t ∈ d.tokens, t.Sound) → ∀ {x}, Denotes d x ↔ x = d.datum) {opener : Token}
    {behind : List Token} (ht : ∀ t ∈ opener :: (tokensAll ds ++ behind), t.Sound)
    {xs : List Datum} :
    List.Forall₂ Denotes ds xs ↔ xs = ds.map datum :=
  forall₂_denotes_iff fun d hd => h d hd fun t hmem =>
    ht t (.tail _ (List.mem_append_left _ (Parser.mem_tokensAll hd hmem)))

theorem denotes_quoted_iff {mark : Token} {operand : Derivation} {x : Datum} :
    Denotes (.quoted mark operand) x ↔ ∃ name y, quoteNames.lookup mark.text = some name ∧
      Denotes operand y ∧ x = Datum.ofList (some mark.pos) .nil [.sym ⟨name⟩, y] := by
  constructor
  · intro h
    cases h with
    | quoted known behind => exact ⟨_, _, known, behind, rfl⟩
  · rintro ⟨name, y, known, behind, rfl⟩
    exact .quoted known behind

theorem denotes_list_iff {opener closer : Token} {ds : List Derivation} {x : Datum} :
    Denotes (.list opener ds closer) x ↔
      ∃ ys, List.Forall₂ Denotes ds ys ∧ x = Datum.ofList (some opener.pos) .nil ys := by
  constructor
  · intro h
    cases h with
    | empty => exact ⟨[], .nil, rfl⟩
    | list first others => exact ⟨_, .cons first others, by rw [Datum.ofList, ofList_none]⟩
  · rintro ⟨ys, _ | ⟨first, others⟩, rfl⟩
    · exact .empty
    · rw [Datum.ofList, ofList_none]
      exact .list first others

theorem denotes_dotted_iff {opener dot closer : Token} {ds : List Derivation} {last : Derivation}
    (hnonempty : ds ≠ []) {x : Datum} : Denotes (.dotted opener ds dot last closer) x ↔
      ∃ ys y, List.Forall₂ Denotes ds ys ∧ Denotes last y ∧
        x = Datum.ofList (some opener.pos) y ys := by
  constructor
  · intro h
    cases h with
    | dotted first others tail =>
      exact ⟨_, _, .cons first others, tail, by rw [Datum.ofList, ofList_none]⟩
  · rintro ⟨ys, y, _ | ⟨first, others⟩, tail, rfl⟩
    · exact absurd rfl hnonempty
    · rw [Datum.ofList, ofList_none]
      exact .dotted first others tail

theorem denotes_vector_iff {opener closer : Token} {ds : List Derivation} {x : Datum} :
    Denotes (.vector opener ds closer) x ↔
      ∃ ys, List.Forall₂ Denotes ds ys ∧ x = .vector ys := by
  constructor
  · intro h
    cases h with
    | vector items => exact ⟨_, items, rfl⟩
  · rintro ⟨ys, items, rfl⟩
    exact .vector items

theorem denotes_map_iff {opener closer : Token} {entries : List (Derivation × Derivation)}
    {x : Datum} : Denotes (.map opener entries closer) x ↔
      ∃ ks vs, List.Forall₂ Denotes (entries.map Prod.fst) ks ∧
        List.Forall₂ Denotes (entries.map Prod.snd) vs ∧ x = .map (written (ks.zip vs)) := by
  constructor
  · intro h
    cases h with
    | map keys values one => exact ⟨_, _, keys, values, by rw [overwrites_iff.1 one]⟩
  · rintro ⟨ks, vs, keys, values, rfl⟩
    exact .map keys values (overwrites_iff.2 rfl)

/-- A valid tree, cut from a text, denotes its datum and nothing else. -/
theorem Valid.denotes_iff {d : Derivation} (h : Valid d)
    (ht : ∀ t ∈ d.tokens, t.Sound) {x : Datum} :
    Denotes d x ↔ x = d.datum := by
  induction h generalizing x with
  | atom kind spelt => exact denotes_atom_iff kind (ht _ (.head _)).decodable spelt
  | string kind escapes => exact denotes_string_iff kind (ht _ (.head _)) escapes
  | @quoted mark operand kind _ ih =>
    have hname := lookup_quoteNames kind (ht _ (.head _)).mark
    have hoperand {y : Datum} : Denotes operand y ↔ y = operand.datum :=
      ih fun t hmem => ht t (.tail _ hmem)
    simp [denotes_quoted_iff, hname, hoperand, datum]
  | list _ _ _ _ ih =>
    simp [denotes_list_iff, enclosed_denotes_iff ih ht, datum, datumAll_eq_map]
  | @dotted opener dot closer elements last _ _ _ _ nonempty _ _ _ ih ihLast =>
    have hlast {y : Datum} : Denotes last y ↔ y = last.datum :=
      ihLast fun t hmem =>
        ht t (.tail _ (List.mem_append_right _ (.tail _ (List.mem_append_left _ hmem))))
    simp [denotes_dotted_iff nonempty, enclosed_denotes_iff ih ht, hlast, datum, datumAll_eq_map]
  | vector _ _ _ ih =>
    simp [denotes_vector_iff, enclosed_denotes_iff ih ht, datum, datumAll_eq_map]
  | @map opener closer entries _ _ _ _ ih =>
    have hform {d : Derivation} (hd : d ∈ flatten entries) {y : Datum} :
        Denotes d y ↔ y = d.datum :=
      ih d hd fun t hmem => ht t <| .tail _ <|
        List.mem_append_left _ (tokensEntries_eq entries ▸ Parser.mem_tokensAll hd hmem)
    have hkeys {ks : List Datum} :
        List.Forall₂ Denotes (entries.map Prod.fst) ks ↔ ks = (entries.map Prod.fst).map datum :=
      forall₂_denotes_iff fun d hd => hform (mem_flatten_of_mem_fst hd)
    have hvalues {vs : List Datum} :
        List.Forall₂ Denotes (entries.map Prod.snd) vs ↔ vs = (entries.map Prod.snd).map datum :=
      forall₂_denotes_iff fun d hd => hform (mem_flatten_of_mem_snd hd)
    simp only [denotes_map_iff, hkeys, hvalues, exists_and_left, exists_eq_left, datum,
      datumEntries_eq_zip]

/-- The trees of a derivation denote their data and nothing else. -/
theorem Derives.denotes_iff {forest : List Derivation} {ts : List Token} (h : Derives forest ts)
    (ht : ∀ t ∈ ts, t.Sound) {xs : List Datum} :
    List.Forall₂ Denotes forest xs ↔ xs = forest.map datum := by
  obtain ⟨hvalid, rfl⟩ := h
  exact forall₂_denotes_iff fun d hd =>
    (hvalid d hd).denotes_iff fun t hmem => ht t (List.mem_flatMap.2 ⟨d, hd, hmem⟩)

end Derivation

end TemplateLisp
