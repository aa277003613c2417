import TemplateLisp.Reader.StringLiteral
import TemplateLisp.Reader.Token

/-!
# What the lexer cuts

The state of a scan is a function of the characters that it has passed. `Lexer.Reached` says what
holds of it, `Lexer.Reached.step` that a step keeps it, and `Lexer.reached` that it holds all along
a text.

Two facts about whole texts follow. The scan of a text ends before the end of the text only in a
string that is not closed, and the fault stands at the quote that opens the string (`lex_fault`).
The body of a string token is closed under escapes, so it decodes but for a bad escape
(`lex_string_decodable`).
-/

namespace TemplateLisp

/-- The place behind a text that starts at the place. -/
def Pos.past (p : Pos) (s : List Char) : Pos := s.foldl Pos.after p

theorem Pos.past_snoc (p : Pos) (s : List Char) (c : Char) :
    p.past (s ++ [c]) = (p.past s).after c := by
  rw [past, List.foldl_append, List.foldl_cons, List.foldl_nil, past]

namespace Lexer

/-! ## Inside a string -/

/-- Whether the characters leave a string open and, if so, whether they end in a backslash that
escapes what comes next. -/
def inString : Bool → List Char → Option Bool
  | escaped, [] => some escaped
  | true, _ :: cs => inString false cs
  | false, c :: cs =>
    if c = '\\' then inString true cs else if c = '"' then none else inString false cs

theorem inString_append (escaped : Bool) (s t : List Char) :
    inString escaped (s ++ t) = (inString escaped s).bind (inString · t) := by
  induction s generalizing escaped with
  | nil => rfl
  | cons c s ih =>
    cases escaped with
    | true => exact ih false
    | false =>
      rw [List.cons_append, inString, inString]
      split
      · exact ih true
      · split
        · rfl
        · exact ih false

theorem inString_of_ne {c : Char} (hslash : c ≠ '\\') (hquote : c ≠ '"') (cs : List Char) :
    inString false (c :: cs) = inString false cs := by
  rw [inString, if_neg hslash, if_neg hquote]

/-- A hexadecimal digit stands for itself in a string. -/
theorem inString_of_hexValue? {c : Char} {n : Nat} (h : StringLiteral.hexValue? c = some n)
    (cs : List Char) : inString false (c :: cs) = inString false cs := by
  refine inString_of_ne ?_ ?_ cs
  · rintro rfl
    cases h
  · rintro rfl
    cases h

theorem inString_unicode {a b c d : Char} {code : Nat}
    (h : StringLiteral.unicodeCode? a b c d = some code) (cs : List Char) :
    inString false (a :: b :: c :: d :: cs) = inString false cs := by
  simp only [StringLiteral.unicodeCode?, Option.bind_eq_bind, Option.bind_eq_some_iff] at h
  obtain ⟨_, ha, _, hb, _, hc, _, hd, -⟩ := h
  rw [inString_of_hexValue? ha, inString_of_hexValue? hb, inString_of_hexValue? hc,
    inString_of_hexValue? hd]

/-- The body of a closed string does not end inside an escape. -/
theorem decodeBody_ne_openEscape {body : List Char} (hbody : inString false body = some false)
    (out : List Nat) : StringLiteral.decodeBody out body ≠ .error .openEscape := by
  fun_induction StringLiteral.decodeBody out body with
  | case1 | case7 | case8 => simp
  | case2 => simp [inString] at hbody
  | case3 out rest ih => exact ih hbody
  | case4 out rest ih => exact ih hbody
  | case5 out rest _ ih => exact ih hbody
  | case6 out a b c d rest code hcode ih =>
    exact ih ((inString_unicode hcode rest).symm.trans hbody)
  | case9 out c rest _ _ _ _ _ ih => exact ih hbody
  | case10 out rest ih => exact ih hbody
  | case11 out rest _ ih => exact ih hbody
  | case12 out c rest hlast _ _ _ _ _ hnext _ _ ih =>
    have hslash : c ≠ '\\' := fun hc => by
      cases rest with
      | nil => exact hlast hc rfl
      | cons d rest => exact hnext d rest hc rfl
    have hquote : c ≠ '"' := by
      rintro rfl
      simp [inString] at hbody
    exact ih (inString_of_ne hslash hquote rest ▸ hbody)

/-! ## The state of a scan -/

theorem single?_ne (c : Char) : single? c ≠ some .string ∧ single? c ≠ some .symbol := by
  unfold single?
  grind

/-- The text of a string token: a body that is open to its end, between quotes. -/
def IsStringText (text : String) : Prop :=
  ∃ body, text = String.ofList ('"' :: (body ++ ['"'])) ∧ inString false body = some false

/-- The text of a symbol token. -/
def IsSymbolText (text : String) : Prop := text ≠ "" ∧ text.toList.all isSymbolChar = true

/-- The token has a text of its kind. -/
def WellCut (t : Token) : Prop :=
  (t.kind = .string → IsStringText t.text) ∧ (t.kind = .symbol → IsSymbolText t.text)

theorem wellCut_of_ne {t : Token} (hstring : t.kind ≠ .string) (hsymbol : t.kind ≠ .symbol) :
    WellCut t := ⟨fun h => absurd h hstring, fun h => absurd h hsymbol⟩

theorem wellCut_symbol (start : Pos) {lexeme : List Char} (hne : lexeme ≠ [])
    (hall : lexeme.all isSymbolChar = true) : WellCut (token .symbol start lexeme) := by
  refine ⟨nofun, fun _ => ⟨?_, ?_⟩⟩
  · simpa [token] using hne
  · simpa [token] using hall

/-- The step at which nothing is begun always has a result. It begins a string only at a quote, and
then pushes nothing. -/
theorem begin_spec (out : List Token) (p : Pos) (c : Char) :
    ∃ out' mode, begin out p c = .ok (out', mode) ∧ (∀ t ∈ out', t ∈ out ∨ WellCut t) ∧
      (∀ start lexeme, mode = .symbol start lexeme →
        lexeme ≠ [] ∧ lexeme.all isSymbolChar = true) ∧
      ∀ start escaped lexeme, mode = .string start escaped lexeme →
        c = '"' ∧ out' = out ∧ start = p ∧ escaped = false ∧ lexeme = ['"'] := by
  have hout : ∀ t ∈ out, t ∈ out ∨ WellCut t := fun t ht => .inl ht
  unfold begin
  by_cases hblank : Text.isBlank c = true
  · rw [if_pos hblank]
    exact ⟨out, .between, rfl, hout, nofun, nofun⟩
  rw [if_neg hblank]
  cases hsingle : single? c with
  | some kind =>
    have hne := single?_ne c
    rw [hsingle] at hne
    have hcut : WellCut (token kind p [c]) :=
      wellCut_of_ne (fun h => hne.1 (congrArg some h)) fun h => hne.2 (congrArg some h)
    have hpushed : ∀ t ∈ token kind p [c] :: out, t ∈ out ∨ WellCut t :=
      List.forall_mem_cons.2 ⟨.inr hcut, hout⟩
    exact ⟨_, .between, rfl, hpushed, nofun, nofun⟩
  | none =>
    dsimp only
    by_cases hcomment : c = ';'
    · rw [if_pos hcomment]
      exact ⟨out, .comment, rfl, hout, nofun, nofun⟩
    rw [if_neg hcomment]
    by_cases hcomma : c = ','
    · rw [if_pos hcomma]
      exact ⟨out, .comma p, rfl, hout, nofun, nofun⟩
    rw [if_neg hcomma]
    by_cases hquote : c = '"'
    · rw [if_pos hquote]
      refine ⟨out, _, rfl, hout, nofun, ?_⟩
      rintro start escaped lexeme ⟨⟩
      exact ⟨hquote, rfl, rfl, rfl, rfl⟩
    have hsymbol : isSymbolChar c = true := by
      simp [isSymbolChar, hblank, hsingle, hcomment, hcomma, hquote]
    rw [if_neg hquote, if_pos hsymbol]
    refine ⟨out, .symbol p [c], rfl, hout, ?_, nofun⟩
    rintro start lexeme ⟨⟩
    exact ⟨List.cons_ne_nil c [], by simp [hsymbol]⟩

/-- What holds of the state of a scan behind `passed`. The last part is about a string that is open:
what stands before its quote has been cut into the tokens so far. -/
structure Reached (passed : List Char) (out : List Token) (mode : Mode) (p : Pos) : Prop where
  scans : ∀ rest, scan [] .between .start (passed ++ rest) = scan out mode p rest
  place : p = Pos.start.past passed
  tokens : ∀ t ∈ out, WellCut t
  named : ∀ start lexeme, mode = .symbol start lexeme →
    lexeme ≠ [] ∧ lexeme.all isSymbolChar = true
  opened : ∀ start escaped lexeme, mode = .string start escaped lexeme →
    ∃ before body, passed = before ++ '"' :: body ∧ start = Pos.start.past before ∧
      lexeme = body.reverse ++ ['"'] ∧ inString false body = some escaped ∧
      scan [] .between .start before = (out, none)

section
variable {passed : List Char} {out : List Token} {mode : Mode} {p : Pos}

/-- The state behind one more character, from the result of the step. -/
theorem Reached.advance (h : Reached passed out mode p) {c : Char} {out' : List Token}
    {mode' : Mode} (hstep : step out p c mode = .ok (out', mode'))
    (tokens : ∀ t ∈ out', WellCut t)
    (named : ∀ start lexeme, mode' = .symbol start lexeme →
      lexeme ≠ [] ∧ lexeme.all isSymbolChar = true)
    (opened : ∀ start escaped lexeme, mode' = .string start escaped lexeme →
      ∃ before body, passed ++ [c] = before ++ '"' :: body ∧ start = Pos.start.past before ∧
        lexeme = body.reverse ++ ['"'] ∧ inString false body = some escaped ∧
        scan [] .between .start before = (out', none)) :
    Reached (passed ++ [c]) out' mode' (p.after c) where
  scans rest := by
    rw [List.append_assoc, List.singleton_append, h.scans, scan, hstep]
  place := by rw [Pos.past_snoc, ← h.place]
  tokens := tokens
  named := named
  opened := opened

/-- A step that cuts off what is begun and begins something new. -/
theorem Reached.advance_begin (h : Reached passed out mode p) {c : Char} {cut : List Token}
    (hstep : step out p c mode = begin cut p c) (hfinish : finish out mode = (cut, none))
    (tokens : ∀ t ∈ cut, WellCut t) :
    ∃ out' mode', Reached (passed ++ [c]) out' mode' (p.after c) := by
  obtain ⟨out', mode', hbegin, hpushed, hnamed, hopened⟩ := begin_spec cut p c
  have htokens : ∀ t ∈ out', WellCut t := fun t ht => (hpushed t ht).elim (tokens t) id
  refine ⟨out', mode', h.advance (hstep.trans hbegin) htokens hnamed ?_⟩
  intro start escaped lexeme hmode
  obtain ⟨rfl, rfl, rfl, rfl, rfl⟩ := hopened start escaped lexeme hmode
  refine ⟨passed, [], rfl, h.place, rfl, rfl, ?_⟩
  rw [← List.append_nil passed, h.scans, scan, hfinish]

/-- What the end of the text makes of the state is cut well too. -/
theorem Reached.finish_tokens (h : Reached passed out mode p) :
    ∀ t ∈ (finish out mode).1, WellCut t := by
  cases mode with
  | between | comment | string => exact h.tokens
  | comma start =>
    exact List.forall_mem_cons.2 ⟨wellCut_of_ne nofun nofun, h.tokens⟩
  | symbol start lexeme =>
    obtain ⟨hne, hall⟩ := h.named _ _ rfl
    exact List.forall_mem_cons.2 ⟨wellCut_symbol start hne hall, h.tokens⟩

/-- A scan never gets stuck, and a step keeps what holds of its state. -/
theorem Reached.step (h : Reached passed out mode p) (c : Char) :
    ∃ out' mode', Reached (passed ++ [c]) out' mode' (p.after c) := by
  cases mode with
  | between => exact h.advance_begin rfl rfl h.finish_tokens
  | comment =>
    refine ⟨out, _, h.advance rfl h.tokens ?_ ?_⟩
    · intro start lexeme hmode
      split at hmode <;> cases hmode
    · intro start escaped lexeme hmode
      split at hmode <;> cases hmode
  | comma start =>
    by_cases hc : c = '@'
    · have hstep : Lexer.step out p c (.comma start) =
          .ok (token .unquote start ['@', ','] :: out, .between) := by rw [Lexer.step, if_pos hc]
      have hcut : WellCut (token .unquote start ['@', ',']) := wellCut_of_ne nofun nofun
      exact ⟨_, _, h.advance hstep (List.forall_mem_cons.2 ⟨hcut, h.tokens⟩) nofun nofun⟩
    · exact h.advance_begin (by rw [Lexer.step, if_neg hc]) rfl h.finish_tokens
  | symbol start lexeme =>
    by_cases hc : isSymbolChar c = true
    · have hstep : Lexer.step out p c (.symbol start lexeme) =
        .ok (out, .symbol start (c :: lexeme)) := by
        rw [Lexer.step, if_pos hc]
      refine ⟨_, _, h.advance hstep h.tokens ?_ nofun⟩
      rintro _ _ ⟨⟩
      exact ⟨List.cons_ne_nil c lexeme, by simpa [hc] using (h.named _ _ rfl).2⟩
    · exact h.advance_begin (by rw [Lexer.step, if_neg hc]) rfl h.finish_tokens
  | string start escaped lexeme =>
    obtain ⟨before, body, hpassed, hstart, hlexeme, hbody, hscan⟩ := h.opened _ _ _ rfl
    have hpassed' : passed ++ [c] = before ++ '"' :: (body ++ [c]) := by rw [hpassed]; simp
    -- a character that leaves the string open
    have hgo (escaped' : Bool) (hin : inString escaped [c] = some escaped')
        (hstep : Lexer.step out p c (.string start escaped lexeme) =
          .ok (out, .string start escaped' (c :: lexeme))) :
        ∃ out' mode', Reached (passed ++ [c]) out' mode' (p.after c) := by
      refine ⟨_, _, h.advance hstep h.tokens nofun ?_⟩
      rintro _ _ _ ⟨⟩
      refine ⟨before, body ++ [c], hpassed', hstart, by simp [hlexeme], ?_, hscan⟩
      rw [inString_append, hbody, Option.bind_some, hin]
    cases escaped with
    | true => exact hgo false rfl rfl
    | false =>
      by_cases hslash : c = '\\'
      · exact hgo true (by simp [inString, hslash]) (by simp [Lexer.step, hslash])
      by_cases hquote : c = '"'
      · have hstep : Lexer.step out p c (.string start false lexeme) =
            .ok (token .string start (c :: lexeme) :: out, .between) := by
          simp [Lexer.step, hquote]
        have hcut : WellCut (token .string start (c :: lexeme)) :=
          ⟨fun _ => ⟨body, by simp [token, hquote, hlexeme], hbody⟩, nofun⟩
        exact ⟨_, _, h.advance hstep (List.forall_mem_cons.2 ⟨hcut, h.tokens⟩) nofun nofun⟩
      · exact hgo false (by simp [inString, hslash, hquote]) (by simp [Lexer.step, hslash, hquote])

theorem Reached.run (h : Reached passed out mode p) (cs : List Char) :
    ∃ out' mode' p', Reached (passed ++ cs) out' mode' p' := by
  induction cs generalizing passed out mode p with
  | nil => exact ⟨out, mode, p, by rwa [List.append_nil]⟩
  | cons c cs ih =>
    obtain ⟨out', mode', h'⟩ := h.step c
    obtain ⟨out'', mode'', p'', h''⟩ := ih h'
    exact ⟨out'', mode'', p'', by rwa [List.append_assoc, List.singleton_append] at h''⟩

end

theorem reached (source : List Char) : ∃ out mode p, Reached source out mode p := by
  have hstart : Reached [] [] .between .start := ⟨fun _ => rfl, rfl, nofun, nofun, nofun⟩
  exact hstart.run source

theorem IsStringText.decode_ne_openEscape {text : String} (h : IsStringText text) :
    StringLiteral.decode text ≠ .error .openEscape := by
  obtain ⟨body, rfl, hbody⟩ := h
  rw [StringLiteral.decode_ofList]
  exact decodeBody_ne_openEscape hbody []

theorem Reached.lex_eq {source : List Char} {out : List Token} {mode : Mode} {p : Pos}
    (h : Reached source out mode p) :
    lex source = ⟨(finish out mode).1.reverse, (finish out mode).2⟩ := by
  have hscan := h.scans []
  rw [List.append_nil] at hscan
  rw [lex, hscan, scan]

end Lexer

/-- The scan of a text ends early only in a string that is not closed. The fault stands at the quote
that opens the string, and the tokens are those of the text before it. -/
theorem lex_fault {source : List Char} {f : SyntaxFault} {pos : Pos}
    (h : (lex source).fault = some (f, pos)) :
    f = .unterminatedString ∧ ∃ before after, source = before ++ '"' :: after ∧
      pos = Pos.start.past before ∧ Lexer.inString false after ≠ none ∧
      lex before = ⟨(lex source).tokens, none⟩ := by
  obtain ⟨out, mode, p, hreached⟩ := Lexer.reached source
  rw [hreached.lex_eq] at h ⊢
  cases mode with
  | string start escaped lexeme =>
    obtain ⟨rfl, rfl⟩ : SyntaxFault.unterminatedString = f ∧ start = pos := by
      simpa [Lexer.finish] using h
    obtain ⟨before, body, hsource, hstart, -, hbody, hscan⟩ := hreached.opened _ _ _ rfl
    refine ⟨rfl, before, body, hsource, hstart, by simp [hbody], ?_⟩
    rw [lex, hscan]
    rfl
  | between | comment | comma | symbol => simp [Lexer.finish] at h

theorem lex_wellCut {source : List Char} {t : Token} (ht : t ∈ (lex source).tokens) :
    Lexer.WellCut t := by
  obtain ⟨out, mode, p, hreached⟩ := Lexer.reached source
  rw [hreached.lex_eq, List.mem_reverse] at ht
  exact hreached.finish_tokens t ht

/-- A string token decodes, or has a bad escape. -/
theorem lex_string_decodable {source : List Char} {t : Token} (ht : t ∈ (lex source).tokens)
    (hkind : t.kind = .string) : StringLiteral.decode t.text ≠ .error .openEscape :=
  ((lex_wellCut ht).1 hkind).decode_ne_openEscape

end TemplateLisp
