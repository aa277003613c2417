import TemplateLisp.Proofs.Places

/-!
# Lexing the parts of a text

A scan that starts elsewhere, behind other tokens, cuts the same tokens at moved places
(`Lexer.scan_moved`). So the tokens of two texts with a line end between them are those of the first
and those of the second, moved down by the lines of the first (`lex_lines`).

Every token is the text at its place, and a scan that starts there cuts this token and all after it
(`lex_token`). Scans are compared by what is begun: a token either starts where the scan is between
tokens or is the one that the scan is in the middle of (`Lexer.scan_token`).
-/

namespace TemplateLisp

namespace Lexer

/-! ## Scans that start elsewhere -/

/-- What is begun, with its place moved. -/
def Mode.moved (f : Pos → Pos) : Mode → Mode
  | .between => .between
  | .comment => .comment
  | .comma start => .comma (f start)
  | .string start escaped lexeme => .string (f start) escaped lexeme
  | .symbol start lexeme => .symbol (f start) lexeme

section
variable (f : Pos → Pos) (base : List Token)

/-- Tokens with their places moved, in front of others. -/
def movedOnto (out : List Token) : List Token := out.map (Token.moved f) ++ base

/-- The result of a step with its places moved, in front of other tokens. -/
def movedStep : Except Fault (List Token × Mode) → Except Fault (List Token × Mode)
  | .ok (out, mode) => .ok (movedOnto f base out, mode.moved f)
  | .error (fault, p) => .error (fault.moved f, f p)

theorem begin_moved (out : List Token) (p : Pos) (c : Char) :
    begin (movedOnto f base out) (f p) c = movedStep f base (begin out p c) := by
  unfold begin
  repeat' split
  all_goals rfl

theorem step_moved (out : List Token) (p : Pos) (c : Char) (mode : Mode) :
    step (movedOnto f base out) (f p) c (mode.moved f) = movedStep f base (step out p c mode) := by
  cases mode with
  | between => exact begin_moved f base out p c
  | comment =>
    simp only [step, Mode.moved, movedStep]
    split <;> rfl
  | comma start =>
    simp only [step, Mode.moved]
    split
    · rfl
    · exact begin_moved f base (token .unquote start [','] :: out) p c
  | string start escaped lexeme =>
    simp only [step, Mode.moved]
    repeat' split
    all_goals rfl
  | symbol start lexeme =>
    simp only [step, Mode.moved]
    split
    · rfl
    · exact begin_moved f base (token .symbol start lexeme :: out) p c

theorem finish_moved (out : List Token) (mode : Mode) :
    finish (movedOnto f base out) (mode.moved f) =
      (movedOnto f base (finish out mode).1, movedEnding f (finish out mode).2) := by
  cases mode <;> rfl

/-- A scan that starts at `q` instead of `p` does the same at moved places. -/
theorem scan_moved {p q : Pos} (hf : ∀ s, f (p.past s) = q.past s) (out : List Token) (mode : Mode)
    (cs : List Char) :
    scan (movedOnto f base out) (mode.moved f) q cs =
      (movedOnto f base (scan out mode p cs).1, movedEnding f (scan out mode p cs).2) := by
  induction cs generalizing p q out mode with
  | nil => exact finish_moved f base out mode
  | cons c cs ih =>
    have hq : f p = q := hf []
    have hstep := step_moved f base out p c mode
    rw [hq] at hstep
    rw [scan, scan, hstep]
    cases step out p c mode with
    | error e => rfl
    | ok r => exact ih (fun s => hf (c :: s)) r.1 r.2

end

/-- The scan of a text at a place, behind other tokens, by the scan of the text alone. -/
theorem scan_eq_lex (base : List Token) (origin : Pos) (cs : List Char) :
    scan base .between origin cs =
      (((lex cs).tokens.map (Token.moved origin.within)).reverse ++ base,
        movedEnding origin.within (lex cs).fault) := by
  have hscan := scan_moved origin.within base (Pos.within_past origin) [] .between cs
  simpa [movedOnto, Mode.moved, lex] using hscan

/-- A scan keeps the tokens that it starts behind. -/
theorem scan_suffix (out : List Token) (mode : Mode) (p : Pos) (cs : List Char) :
    ∃ new, (scan out mode p cs).1 = new ++ out := by
  have hmode : mode.moved id = mode := by cases mode <;> rfl
  have hscan := scan_moved id out (fun s => rfl) [] mode (p := p) (q := p) cs
  rw [hmode] at hscan
  exact ⟨_, congrArg Prod.fst hscan⟩

/-! ## Two texts with a line end between them -/

theorem step_lineEnd {out : List Token} {mode : Mode} (h : (finish out mode).2 = none) (p : Pos) :
    step out p '\n' mode = .ok ((finish out mode).1, .between) := by
  have hbegin (out : List Token) : begin out p '\n' = .ok (out, .between) := rfl
  cases mode with
  | between => exact hbegin out
  | comment => rfl
  | comma start => exact hbegin _
  | symbol start lexeme => exact hbegin _
  | string start escaped lexeme => cases h

end Lexer

/-- The tokens of two texts with a line end between them. -/
theorem lex_lines {s : List Char} (hs : (lex s).fault = none) (t : List Char) :
    lex (s ++ '\n' :: t) =
      ⟨(lex s).tokens ++ (lex t).tokens.map (Token.moved (Pos.down (s.count '\n' + 1))),
        movedEnding (Pos.down (s.count '\n' + 1)) (lex t).fault⟩ := by
  obtain ⟨out, mode, p, hreached⟩ := Lexer.reached s
  rw [hreached.lex_eq] at hs ⊢
  have hplace : p.after '\n' = ⟨s.count '\n' + 1 + 1, 1⟩ := by
    rw [hreached.place, Pos.start_past]
    rfl
  have hscan : Lexer.scan out mode p ('\n' :: t) =
      Lexer.scan (Lexer.finish out mode).1 .between (p.after '\n') t := by
    rw [Lexer.scan, Lexer.step_lineEnd hs]
  rw [lex, hreached.scans, hscan, Lexer.scan_eq_lex, hplace, Pos.within_lineStart]
  simp

namespace Lexer

/-! ## Where tokens start -/

/-- The place at which what is begun starts, and its characters so far, last one first. -/
def Mode.begun? : Mode → Option (Pos × List Char)
  | .between => none
  | .comment => none
  | .comma start => some (start, [','])
  | .string start _ lexeme => some (start, lexeme)
  | .symbol start lexeme => some (start, lexeme)

/-- In the text `cs` at `p` stands the token `t`, and the scan from there on, behind the tokens
`earlier`, comes to `result`. -/
def StartsIn (p : Pos) (cs : List Char) (earlier : List Token) (t : Token)
    (result : List Token × Option Fault) : Prop :=
  ∃ before after, cs = before ++ (t.text.toList ++ after) ∧ t.pos = p.past before ∧
    scan earlier .between t.pos (t.text.toList ++ after) = result

/-- The token `t` is the one that is begun, and the text `cs` goes on with it. -/
def Finishes (mode : Mode) (cs : List Char) (t : Token) : Prop :=
  ∃ lexeme after, mode.begun? = some (t.pos, lexeme) ∧
    lexeme.reverse ++ cs = t.text.toList ++ after

/-- Where a token that a scan adds comes from. -/
def Origin (out : List Token) (mode : Mode) (p : Pos) (cs : List Char) (earlier : List Token)
    (t : Token) : Prop :=
  (earlier = out ∧ Finishes mode cs t) ∨ StartsIn p cs earlier t (scan out mode p cs)

/-- All tokens that a scan adds have an origin. -/
def Traced (out : List Token) (mode : Mode) (p : Pos) (cs : List Char) : Prop :=
  ∀ later t earlier, (scan out mode p cs).1 = later ++ t :: earlier →
    out.length ≤ earlier.length → Origin out mode p cs earlier t

section
variable {out : List Token} {mode : Mode} {p : Pos} {c : Char} {cs : List Char}

theorem StartsIn.cons {earlier : List Token} {t : Token} {result : List Token × Option Fault}
    (h : StartsIn (p.after c) cs earlier t result) : StartsIn p (c :: cs) earlier t result := by
  obtain ⟨before, after, rfl, hpos, hscan⟩ := h
  exact ⟨c :: before, after, rfl, hpos, hscan⟩

/-- Of two tokens behind which a list goes on, one is the other or stands further back. -/
theorem last_or_later {new later earlier out : List Token} {t u : Token}
    (h : new ++ u :: out = later ++ t :: earlier) (hle : out.length ≤ earlier.length) :
    (earlier = out ∧ t = u) ∨ (u :: out).length ≤ earlier.length := by
  by_cases hlength : (u :: out).length ≤ earlier.length
  · exact .inr hlength
  · have heq : (u :: out).length = (t :: earlier).length := by
      simp only [List.length_cons] at hlength ⊢
      omega
    obtain ⟨-, htail⟩ := List.append_inj' h heq
    obtain ⟨rfl, rfl⟩ := List.cons.inj htail
    exact .inl ⟨rfl, rfl⟩

/-- A step that goes on with what is begun, or with nothing. -/
theorem Traced.advance {mode' : Mode} (hstep : step out p c mode = .ok (out, mode'))
    (hbegun : ∀ start lexeme, mode'.begun? = some (start, lexeme) →
      ∃ rest, lexeme = c :: rest ∧ mode.begun? = some (start, rest))
    (h : Traced out mode' (p.after c) cs) : Traced out mode p (c :: cs) := by
  intro later t earlier hresult hle
  have hscan : scan out mode p (c :: cs) = scan out mode' (p.after c) cs := by rw [scan, hstep]
  rw [hscan] at hresult
  rcases h later t earlier hresult hle with ⟨rfl, lexeme, after, hmode, htext⟩ | hstarts
  · obtain ⟨rest, rfl, hrest⟩ := hbegun _ _ hmode
    exact .inl ⟨rfl, rest, after, hrest, by simpa using htext⟩
  · exact .inr (hscan ▸ hstarts.cons)

/-- A step that pushes a token which is begun and ends with the character. -/
theorem Traced.push {u : Token} {lexeme : List Char}
    (hstep : step out p c mode = .ok (u :: out, .between))
    (hbegun : mode.begun? = some (u.pos, lexeme)) (htext : u.text.toList = lexeme.reverse ++ [c])
    (h : Traced (u :: out) .between (p.after c) cs) : Traced out mode p (c :: cs) := by
  intro later t earlier hresult hle
  have hscan : scan out mode p (c :: cs) = scan (u :: out) .between (p.after c) cs := by
    rw [scan, hstep]
  rw [hscan] at hresult
  obtain ⟨new, hnew⟩ := scan_suffix (u :: out) .between (p.after c) cs
  rcases last_or_later (hnew.symm.trans hresult) hle with ⟨rfl, rfl⟩ | hlater
  · exact .inl ⟨rfl, lexeme, cs, hbegun, by simp [htext]⟩
  · rcases h later t earlier hresult hlater with ⟨-, _, _, hmode, -⟩ | hstarts
    · cases hmode
    · exact .inr (hscan ▸ hstarts.cons)

/-- A step that cuts off a token which is begun in front of the character. -/
theorem Traced.cut {u : Token} {lexeme : List Char}
    (hstep : step out p c mode = begin (u :: out) p c)
    (hbegun : mode.begun? = some (u.pos, lexeme)) (htext : u.text.toList = lexeme.reverse)
    (h : Traced (u :: out) .between p (c :: cs)) : Traced out mode p (c :: cs) := by
  intro later t earlier hresult hle
  have hscan := scan_cut hstep cs
  rw [hscan] at hresult
  obtain ⟨new, hnew⟩ := scan_suffix (u :: out) .between p (c :: cs)
  rcases last_or_later (hnew.symm.trans hresult) hle with ⟨rfl, rfl⟩ | hlater
  · exact .inl ⟨rfl, lexeme, c :: cs, hbegun, by rw [htext]⟩
  · rcases h later t earlier hresult hlater with ⟨-, _, _, hmode, -⟩ | hstarts
    · cases hmode
    · exact .inr (hscan ▸ hstarts)

/-- What the step between tokens does: it passes over a blank, begins something with the character,
or pushes a token of the character. -/
theorem begin_cases (out : List Token) (p : Pos) (c : Char) :
    (∃ mode, begin out p c = .ok (out, mode) ∧
      (mode.begun? = none ∨ mode.begun? = some (p, [c]))) ∨
    ∃ kind, single? c = some kind ∧ begin out p c = .ok (token kind p [c] :: out, .between) := by
  unfold begin
  split
  · exact .inl ⟨.between, rfl, .inl rfl⟩
  split
  · rename_i hsingle
    exact .inr ⟨_, hsingle, rfl⟩
  split
  · exact .inl ⟨.comment, rfl, .inl rfl⟩
  split
  · rename_i hcomma
    exact .inl ⟨.comma p, rfl, .inr (by rw [hcomma]; rfl)⟩
  split
  · rename_i hquote
    exact .inl ⟨.string p false ['"'], rfl, .inr (by rw [hquote]; rfl)⟩
  split
  · exact .inl ⟨.symbol p [c], rfl, .inr rfl⟩
  · rename_i hblank _ hsingle hcomment hcomma hquote hsymbol
    exact absurd (by simp [isSymbolChar, hblank, hsingle, hcomment, hcomma, hquote]) hsymbol

/-- A token that starts with the character starts right here. -/
theorem traced_between (ih : ∀ out mode, Traced out mode (p.after c) cs) :
    Traced out .between p (c :: cs) := by
  intro later t earlier hresult hle
  rcases begin_cases out p c with ⟨mode, hbegin, hbegun⟩ | ⟨kind, -, hbegin⟩
  · have hscan : scan out .between p (c :: cs) = scan out mode (p.after c) cs := by
      rw [scan, step, hbegin]
    rw [hscan] at hresult
    rcases ih out mode later t earlier hresult hle with ⟨rfl, lexeme, after, hmode, htext⟩ | hstarts
    · rcases hbegun with hbegun | hbegun
      · cases hbegun.symm.trans hmode
      · obtain ⟨hpos, rfl⟩ : p = t.pos ∧ [c] = lexeme := by simpa using hbegun.symm.trans hmode
        exact .inr ⟨[], after, htext, hpos.symm, by rw [← htext, ← hpos]; rfl⟩
    · exact .inr (hscan ▸ hstarts.cons)
  · have hscan : scan out .between p (c :: cs) =
        scan (token kind p [c] :: out) .between (p.after c) cs := by rw [scan, step, hbegin]
    rw [hscan] at hresult
    obtain ⟨new, hnew⟩ := scan_suffix (token kind p [c] :: out) .between (p.after c) cs
    rcases last_or_later (hnew.symm.trans hresult) hle with ⟨rfl, rfl⟩ | hlater
    · have htext : (token kind p [c]).text.toList = [c] := by simp [token]
      exact .inr ⟨[], cs, by rw [htext]; rfl, rfl, by rw [htext]; rfl⟩
    · rcases ih _ .between later t earlier hresult hlater with ⟨-, _, _, hmode, -⟩ | hstarts
      · cases hmode
      · exact .inr (hscan ▸ hstarts.cons)

end

/-- All tokens that a scan adds start where it is between tokens, but for the one that it starts in
the middle of. -/
theorem scan_token (out : List Token) (mode : Mode) (p : Pos) (cs : List Char) :
    Traced out mode p cs := by
  induction cs generalizing out mode p with
  | nil =>
    intro later t earlier hresult hle
    -- at the end of the text only what is begun can become a token
    have hnone (hout : (finish out mode).1 = out) : Origin out mode p [] earlier t := by
      have hlength := congrArg List.length (hout.symm.trans hresult)
      simp only [List.length_append, List.length_cons] at hlength
      omega
    have hlast (u : Token) (lexeme : List Char) (hout : (finish out mode).1 = u :: out)
        (hbegun : mode.begun? = some (u.pos, lexeme)) (htext : u.text.toList = lexeme.reverse) :
        Origin out mode p [] earlier t := by
      have hnew : [] ++ u :: out = later ++ t :: earlier := hout.symm.trans hresult
      rcases last_or_later hnew hle with ⟨rfl, rfl⟩ | hlater
      · exact .inl ⟨rfl, lexeme, [], hbegun, by rw [htext]⟩
      · have hlength := congrArg List.length hnew
        simp only [List.length_append, List.length_cons, List.length_nil] at hlength hlater
        omega
    cases mode with
    | between | comment | string => exact hnone rfl
    | comma start => exact hlast _ [','] rfl rfl (by simp [token])
    | symbol start lexeme => exact hlast _ lexeme rfl rfl (by simp [token])
  | cons c cs ih =>
    have hbetween (out : List Token) : Traced out .between p (c :: cs) :=
      traced_between fun out mode => ih out mode (p.after c)
    cases mode with
    | between => exact hbetween out
    | comment =>
      refine .advance rfl ?_ (ih _ _ _)
      intro start lexeme hmode
      split at hmode <;> cases hmode
    | comma start =>
      by_cases hc : c = '@'
      · have hstep : step out p c (.comma start) =
            .ok (token .unquote start ['@', ','] :: out, .between) := by rw [step, if_pos hc]
        exact .push hstep rfl (by simp [token, hc]) (ih _ _ _)
      · exact .cut (by rw [step, if_neg hc]) rfl (by simp [token]) (hbetween _)
    | symbol start lexeme =>
      by_cases hc : isSymbolChar c = true
      · have hstep : step out p c (.symbol start lexeme) =
          .ok (out, .symbol start (c :: lexeme)) := by
          rw [step, if_pos hc]
        refine .advance hstep ?_ (ih _ _ _)
        rintro _ _ ⟨⟩
        exact ⟨lexeme, rfl, rfl⟩
      · exact .cut (by rw [step, if_neg hc]) rfl (by simp [token]) (hbetween _)
    | string start escaped lexeme =>
      have hgo (escaped' : Bool) (hstep : step out p c (.string start escaped lexeme) =
          .ok (out, .string start escaped' (c :: lexeme))) :
          Traced out (.string start escaped lexeme) p (c :: cs) := by
        refine .advance hstep ?_ (ih _ _ _)
        rintro _ _ ⟨⟩
        exact ⟨lexeme, rfl, rfl⟩
      cases escaped with
      | true => exact hgo false rfl
      | false =>
        by_cases hslash : c = '\\'
        · exact hgo true (by simp [step, hslash])
        by_cases hquote : c = '"'
        · have hstep : step out p c (.string start false lexeme) =
              .ok (token .string start (c :: lexeme) :: out, .between) := by simp [step, hquote]
          exact .push hstep rfl (by simp [token]) (ih _ _ _)
        · exact hgo false (by simp [step, hslash, hquote])

end Lexer

/-- A token is the text at its place. Lexing the text from there on gives the token and all after
it, as seen from that place. -/
theorem lex_token {source : List Char} {earlier later : List Token} {t : Token}
    (h : (lex source).tokens = earlier ++ t :: later) :
    ∃ before after, source = before ++ (t.text.toList ++ after) ∧ t.pos = Pos.behind before ∧
      (lex (t.text.toList ++ after)).tokens.map (Token.moved t.pos.within) = t :: later ∧
      movedEnding t.pos.within (lex (t.text.toList ++ after)).fault = (lex source).fault := by
  have hresult : (Lexer.scan [] .between .start source).1 =
    later.reverse ++ t :: earlier.reverse := by
    rw [← List.reverse_inj]
    simpa [lex] using h
  rcases Lexer.scan_token [] .between .start source _ _ _ hresult (Nat.zero_le _) with
    ⟨-, _, _, hmode, -⟩ | ⟨before, after, hsource, hpos, hscan⟩
  · cases hmode
  rw [Lexer.scan_eq_lex] at hscan
  have htokens := congrArg Prod.fst hscan
  have hfault := congrArg Prod.snd hscan
  refine ⟨before, after, hsource, hpos.trans (Pos.start_past before), ?_, hfault⟩
  have hreverse := htokens.trans hresult
  rw [← List.singleton_append, ← List.append_assoc, List.append_left_inj,
    ← List.reverse_inj] at hreverse
  simpa using hreverse

namespace Lexer

/-! ## The text of brackets and quote marks -/

/-- An opening parenthesis or a quote mark has a text of its kind. -/
def MarkText (t : Token) : Prop :=
  (t.kind = .openParen → t.text = "(") ∧ (t.kind = .quote → t.text = "'" ∨ t.text = "`") ∧
    (t.kind = .unquote → t.text = "," ∨ t.text = ",@")

/-- Tokens of other kinds have any text. -/
theorem markText_other {kind : TokenKind}
    (h : kind ≠ .openParen ∧ kind ≠ .quote ∧ kind ≠ .unquote) (p : Pos) (lexeme : List Char) :
    MarkText (token kind p lexeme) :=
  ⟨fun hkind => absurd hkind h.1, fun hkind => absurd hkind h.2.1, fun hkind => absurd hkind h.2.2⟩

theorem markText_unquote (p : Pos) {lexeme : List Char} (h : lexeme = [','] ∨ lexeme = ['@', ',']) :
    MarkText (token .unquote p lexeme) := by
  refine ⟨fun hkind => TokenKind.noConfusion hkind, fun hkind => TokenKind.noConfusion hkind,
    fun _ => ?_⟩
  rcases h with rfl | rfl
  · exact .inl rfl
  · exact .inr rfl

theorem markText_single {c : Char} {kind : TokenKind} (h : single? c = some kind) (p : Pos) :
    MarkText (token kind p [c]) := by
  unfold single? at h
  repeat' split at h
  all_goals cases h
  · rename_i hquote
    refine ⟨fun hkind => TokenKind.noConfusion hkind, fun _ => ?_,
      fun hkind => TokenKind.noConfusion hkind⟩
    rcases (by simpa using hquote : c = '\'' ∨ c = '`') with rfl | rfl
    · exact .inl rfl
    · exact .inr rfl
  · rename_i hparen
    exact ⟨fun _ => by rw [hparen]; rfl, fun hkind => TokenKind.noConfusion hkind,
      fun hkind => TokenKind.noConfusion hkind⟩
  all_goals exact markText_other (by decide) p _

theorem begin_marks {out out' : List Token} {p : Pos} {c : Char} {mode : Mode}
    (h : begin out p c = .ok (out', mode)) (hout : ∀ t ∈ out, MarkText t) :
    ∀ t ∈ out', MarkText t := by
  rcases begin_cases out p c with ⟨mode', hbegin, -⟩ | ⟨kind, hsingle, hbegin⟩
  · cases hbegin.symm.trans h
    exact hout
  · cases hbegin.symm.trans h
    exact List.forall_mem_cons.2 ⟨markText_single hsingle p, hout⟩

theorem step_marks {out out' : List Token} {p : Pos} {c : Char} {mode mode' : Mode}
    (h : step out p c mode = .ok (out', mode')) (hout : ∀ t ∈ out, MarkText t) :
    ∀ t ∈ out', MarkText t := by
  cases mode with
  | between => exact begin_marks h hout
  | comment =>
    cases h
    exact hout
  | comma start =>
    rw [step] at h
    split at h
    · cases h
      exact List.forall_mem_cons.2 ⟨markText_unquote start (.inr rfl), hout⟩
    · exact begin_marks h (List.forall_mem_cons.2 ⟨markText_unquote start (.inl rfl), hout⟩)
  | string start escaped lexeme =>
    have hstring : MarkText (token .string start (c :: lexeme)) := markText_other (by decide) _ _
    rw [step] at h
    split at h
    · cases h
      exact hout
    split at h
    · cases h
      exact hout
    split at h
    · cases h
      exact List.forall_mem_cons.2 ⟨hstring, hout⟩
    · cases h
      exact hout
  | symbol start lexeme =>
    rw [step] at h
    split at h
    · cases h
      exact hout
    · exact begin_marks h (List.forall_mem_cons.2 ⟨markText_other (by decide) _ _, hout⟩)

theorem scan_marks {out : List Token} (hout : ∀ t ∈ out, MarkText t) (mode : Mode) (p : Pos)
    (cs : List Char) : ∀ t ∈ (scan out mode p cs).1, MarkText t := by
  induction cs generalizing out mode p with
  | nil =>
    cases mode with
    | between | comment | string => exact hout
    | comma start =>
      exact List.forall_mem_cons.2 ⟨markText_unquote start (.inl rfl), hout⟩
    | symbol start lexeme =>
      exact List.forall_mem_cons.2 ⟨markText_other (by decide) _ _, hout⟩
  | cons c cs ih =>
    rw [scan]
    cases hstep : step out p c mode with
    | error e => exact hout
    | ok r => exact ih (step_marks hstep hout) r.2 (p.after c)

end Lexer

theorem lex_marks {source : List Char} {t : Token} (ht : t ∈ (lex source).tokens) :
    Lexer.MarkText t := by
  have hmem : t ∈ (Lexer.scan [] .between .start source).1 := by simpa [lex] using ht
  exact Lexer.scan_marks (by simp) .between .start source t hmem

end TemplateLisp
