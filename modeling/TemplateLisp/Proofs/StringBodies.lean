import TemplateLisp.Proofs.Lexing

/-!
# The bodies of string literals

The lexer finds the end of a string and the decoder finds what it denotes. Each pairs backslashes
with the characters behind them on its own, and the decoder passes over line ends and hexadecimal
digits besides. Here a body is read once, from left to right, as escape pairs and plain characters
(`StringLiteral.pieces`), and both are compared with that. `lexed_string_decodes` says that the
decoder never runs off the end of a string that the lexer has cut, and that the only thing that can
be wrong with one is an escape `\u` without its four digits.
-/

namespace TemplateLisp

namespace StringLiteral

/-- What the body of a literal is made of. -/
inductive Piece where
  | plain (c : Char)
  /-- A backslash and the character behind it. -/
  | escape (c : Char)
deriving DecidableEq

/-- The text of a piece. -/
def Piece.text : Piece → List Char
  | .plain c => [c]
  | .escape c => ['\\', c]

/-- A body read from left to right as escape pairs and plain characters. -/
def pieces : List Char → List Piece
  | '\\' :: c :: rest => .escape c :: pieces rest
  | c :: rest => .plain c :: pieces rest
  | [] => []

/-- An ASCII hexadecimal digit. -/
def isHexDigit (c : Char) : Bool := "0123456789abcdefABCDEF".toList.contains c

/-- Whether a text begins with four hexadecimal digits. -/
def startsWithCode (s : List Char) : Bool := decide (4 ≤ s.length) && (s.take 4).all isHexDigit

/-- Somewhere the escape `\u` is not followed by four hexadecimal digits. -/
def HasBadEscape (ps : List Piece) : Prop :=
  ∃ behind, .escape 'u' :: behind <:+ ps ∧ startsWithCode (behind.flatMap Piece.text) = false

/-! ## Pieces -/

@[simp] theorem pieces_escape (c : Char) (rest : List Char) :
    pieces ('\\' :: c :: rest) = .escape c :: pieces rest := rfl

theorem pieces_plain {c : Char} (hc : c ≠ '\\') (rest : List Char) :
    pieces (c :: rest) = .plain c :: pieces rest := by
  rw [pieces]
  exact fun _ _ h => absurd h hc

/-- The pieces make up the body. -/
theorem text_pieces (body : List Char) : (pieces body).flatMap Piece.text = body := by
  fun_induction pieces body with
  | case1 c rest ih => simp [Piece.text, ih]
  | case2 c rest _ ih => simp [Piece.text, ih]
  | case3 => rfl

/-- In a body that is open to its end, backslashes and quotes stand in escape pairs only. -/
theorem plain_of_inString {body : List Char} (h : Lexer.inString false body = some false) {c : Char}
    (hc : .plain c ∈ pieces body) : c ≠ '\\' ∧ c ≠ '"' := by
  fun_induction pieces body with
  | case1 d rest ih =>
    rcases List.mem_cons.1 hc with hc | hc
    · cases hc
    · exact ih h hc
  | case2 d rest hnext ih =>
    have hslash : d ≠ '\\' := fun hd => by
      cases rest with
      | nil => simp [Lexer.inString, hd] at h
      | cons e rest => exact hnext e rest hd rfl
    have hquote : d ≠ '"' := by
      rintro rfl
      simp [Lexer.inString] at h
    rw [Lexer.inString_of_ne hslash hquote] at h
    rcases List.mem_cons.1 hc with hc | hc
    · cases hc
      exact ⟨hslash, hquote⟩
    · exact ih h hc
  | case3 => cases hc

/-! ## Hexadecimal digits -/

theorem isSome_hexValue? (c : Char) : (hexValue? c).isSome = isHexDigit c := by
  by_cases hascii : c.toNat < 128
  · have hall : ∀ n < 128, (hexValue? (Char.ofNat n)).isSome = isHexDigit (Char.ofNat n) := by
      decide +kernel
    simpa using hall c.toNat hascii
  · have hdigits : ("0123456789abcdefABCDEF".toList.all (·.toNat < 128)) = true := by decide
    have hhex : isHexDigit c = false := by
      rw [isHexDigit, List.contains_eq_mem, decide_eq_false_iff_not]
      exact fun h => hascii (of_decide_eq_true (List.all_eq_true.1 hdigits c h))
    have hle (d : Char) (hd : d.toNat < 128) : ¬ c ≤ d := fun h => hascii (Nat.lt_of_le_of_lt h hd)
    rw [hhex, hexValue?]
    simp [hle]

/-- Four characters are a code point if they are hexadecimal digits. -/
theorem isSome_unicodeCode? (a b c d : Char) (rest : List Char) :
    (unicodeCode? a b c d).isSome = startsWithCode (a :: b :: c :: d :: rest) := by
  simp only [startsWithCode, List.length_cons, List.take_succ_cons, List.take_zero, List.all_cons,
    List.all_nil, ← isSome_hexValue?, unicodeCode?]
  cases hexValue? a <;> cases hexValue? b <;> cases hexValue? c <;> cases hexValue? d <;> simp

theorem ne_of_unicodeCode? {a b c d : Char} {code : Nat} (h : unicodeCode? a b c d = some code) :
    a ≠ '\\' ∧ b ≠ '\\' ∧ c ≠ '\\' ∧ d ≠ '\\' := by
  refine ⟨?_, ?_, ?_, ?_⟩ <;> rintro rfl <;> simp [unicodeCode?, hexValue?] at h

/-! ## Bad escapes -/

theorem not_hasBadEscape_nil : ¬ HasBadEscape [] := by
  rintro ⟨behind, h, -⟩
  exact List.cons_ne_nil _ _ (List.suffix_nil.1 h)

theorem hasBadEscape_cons {p : Piece} {ps : List Piece} : HasBadEscape (p :: ps) ↔
    (p = .escape 'u' ∧ startsWithCode (ps.flatMap Piece.text) = false) ∨ HasBadEscape ps := by
  constructor
  · rintro ⟨behind, h, hcode⟩
    rcases List.suffix_cons_iff.1 h with h | h
    · obtain ⟨rfl, rfl⟩ := List.cons.inj h
      exact .inl ⟨rfl, hcode⟩
    · exact .inr ⟨behind, h, hcode⟩
  · rintro (⟨rfl, hcode⟩ | ⟨behind, h, hcode⟩)
    · exact ⟨ps, List.suffix_refl _, hcode⟩
    · exact ⟨behind, h.trans (List.suffix_cons _ _), hcode⟩

@[simp] theorem hasBadEscape_plain {c : Char} {ps : List Piece} :
    HasBadEscape (.plain c :: ps) ↔ HasBadEscape ps := by
  simp [hasBadEscape_cons]

theorem hasBadEscape_escape {c : Char} (hc : c ≠ 'u') {ps : List Piece} :
    HasBadEscape (.escape c :: ps) ↔ HasBadEscape ps := by
  simp [hasBadEscape_cons, hc]

theorem hasBadEscape_unicode {rest : List Char} : HasBadEscape (.escape 'u' :: pieces rest) ↔
    startsWithCode rest = false ∨ HasBadEscape (pieces rest) := by
  simp [hasBadEscape_cons, text_pieces]

/-- Decoding stops at an escape without its digits if and only if there is one. What the decoder
passes over at once, line ends and digits, are plain characters, so it never gets out of step with
the pieces. -/
theorem decodeBody_bad_iff (out : List Nat) (body : List Char) :
    (∃ digits, decodeBody out body = .error (.badUnicodeEscape digits)) ↔
    HasBadEscape (pieces body) := by
  fun_induction decodeBody out body with
  | case1 => simpa [pieces] using not_hasBadEscape_nil
  | case2 => simpa [pieces] using not_hasBadEscape_nil
  | case3 out rest ih => rw [ih, pieces_escape, hasBadEscape_escape (by decide)]
  | case4 out rest ih =>
    rw [ih, pieces_escape, hasBadEscape_escape (by decide), pieces_plain (by decide),
      hasBadEscape_plain]
  | case5 out rest _ ih => rw [ih, pieces_escape, hasBadEscape_escape (by decide)]
  | case6 out a b c d rest code hcode ih =>
    obtain ⟨ha, hb, hc, hd⟩ := ne_of_unicodeCode? hcode
    have hstarts : startsWithCode (a :: b :: c :: d :: rest) = true := by
      rw [← isSome_unicodeCode?, hcode, Option.isSome_some]
    rw [ih, pieces_escape, hasBadEscape_unicode, hstarts, pieces_plain ha, pieces_plain hb,
      pieces_plain hc,
      pieces_plain hd]
    simp
  | case7 out a b c d rest hcode =>
    have hstarts : startsWithCode (a :: b :: c :: d :: rest) = false := by
      rw [← isSome_unicodeCode?, hcode, Option.isSome_none]
    simp [hasBadEscape_unicode, hstarts]
  | case8 out digits hshort =>
    have hcode : startsWithCode digits = false := by
      rcases digits with _ | ⟨a, _ | ⟨b, _ | ⟨c, _ | ⟨d, rest⟩⟩⟩⟩
      · rfl
      · rfl
      · rfl
      · rfl
      · exact absurd rfl (hshort a b c d rest)
    simp [hasBadEscape_unicode, hcode]
  | case9 out c rest hline hcrlf hcr hunicode hshort ih =>
    have hc : c ≠ 'u' := fun h => hshort h
    rw [ih, pieces_escape, hasBadEscape_escape hc]
  | case10 out rest ih =>
    rw [ih, pieces_plain (by decide), hasBadEscape_plain, pieces_plain (by decide),
      hasBadEscape_plain]
  | case11 out rest _ ih => rw [ih, pieces_plain (by decide), hasBadEscape_plain]
  | case12 out c rest hlast _ _ _ _ _ hnext _ _ ih =>
    have hslash : c ≠ '\\' := fun hc => by
      cases rest with
      | nil => exact hlast hc rfl
      | cons d rest => exact hnext d rest hc rfl
    rw [ih, pieces_plain hslash, hasBadEscape_plain]

end StringLiteral

open StringLiteral

/-- Every string that the lexer cuts decodes to a text, unless an escape `\u` in it is not followed
by four hexadecimal digits; then that is reported. Nothing is ever looked for behind its end:
outside of its escape pairs there is no backslash. -/
theorem lexed_string_decodes (source : List Char) (t : Token) (ht : t ∈ (lex source).tokens)
    (hkind : t.kind = .string) : ∃ body, t.text = String.ofList ('"' :: (body ++ ['"'])) ∧
      (∀ c, .plain c ∈ pieces body → c ≠ '\\' ∧ c ≠ '"') ∧
      decode t.text ≠ .error .openEscape ∧
      ((∃ digits, decode t.text = .error (.badUnicodeEscape digits)) ↔ HasBadEscape (pieces body)) ∧
      (¬ HasBadEscape (pieces body) → ∃ s, decode t.text = .ok s) := by
  obtain ⟨body, htext, hbody⟩ := (lex_wellCut ht).1 hkind
  have hopen := lex_string_decodable ht hkind
  have hdecode : decode t.text = decodeBody [] body := by rw [htext, decode_ofList]
  have hbad : (∃ digits, decode t.text = .error (.badUnicodeEscape digits)) ↔
      HasBadEscape (pieces body) := by
    rw [← decodeBody_bad_iff [], hdecode]
  refine ⟨body, htext, fun c => plain_of_inString hbody, hopen, hbad, fun hgood => ?_⟩
  cases hresult : decode t.text with
  | ok s => exact ⟨s, rfl⟩
  | error f =>
    cases f with
    | badUnicodeEscape digits => exact absurd (hbad.1 ⟨digits, hresult⟩) hgood
    | openEscape => exact absurd hresult hopen

/-- Two strings: one with four digits and another escape behind them, and one with too
few digits. -/
def twoStrings : List Char := "\"\\u00e9\\q\" \"\\\\\\u12\"".toList

/-- In the second string the escape behind an escaped backslash is found to be bad. -/
theorem lexed_string_decodes_tooFewDigits :
    ∃ t ∈ (lex twoStrings).tokens, t.kind = .string ∧ t.text = "\"\\\\\\u12\"" ∧
      ∃ digits, decode t.text = .error (.badUnicodeEscape digits) := by
  have hmem : (⟨.string, "\"\\\\\\u12\"", ⟨1, 12⟩⟩ : Token) ∈ (lex twoStrings).tokens := by
    decide +kernel
  refine ⟨_, hmem, rfl, rfl, ?_⟩
  obtain ⟨body, htext, -, -, hbad, -⟩ := lexed_string_decodes _ _ hmem rfl
  have hbody : '"' :: (body ++ ['"']) = '"' :: ("\\\\\\u12".toList ++ ['"']) :=
    String.ofList_injective (htext.symm.trans (by decide))
  obtain rfl : body = "\\\\\\u12".toList := List.append_cancel_right (List.cons.inj hbody).2
  exact hbad.2 ⟨[.plain '1', .plain '2'], ⟨[.escape '\\'], rfl⟩, rfl⟩

end TemplateLisp
