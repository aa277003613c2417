import Mathlib.Data.List.TakeWhile
import TemplateLisp.Proofs.Places
import TemplateLisp.Proofs.Spelling

/-!
# How a text falls apart into tokens

`Lexer.Partition` says what it means for tokens to partition a text: gaps of blanks and comments
take turns with lexemes, up to the end of the text or to a string that is never closed. It is about
characters only and does not mention the scan. Every text has a partition
(`Lexer.exists_partition`), and the scan cuts each partition into its own tokens
(`Lexer.Partition.scan_eq`), so there is exactly one, the one that the lexer finds
(`lex_partitions`).
-/

namespace TemplateLisp

/-- Passing a text behind another gives the place behind both. -/
theorem Pos.behind_past (s t : List Char) : (behind s).past t = behind (s ++ t) := by
  rw [← start_past, ← start_past, past, past, past, List.foldl_append]

namespace Lexer

/-! ## Gaps -/

/-- What stands in front of `after` between two tokens: blanks, and comments that run up to the end
of their line or of the text. -/
inductive Gap : (gap after : List Char) → Prop where
  | nil {after : List Char} : Gap [] after
  | blank {c : Char} {gap after : List Char} (hblank : Text.isBlank c = true)
    (rest : Gap gap after) :
      Gap (c :: gap) after
  | comment {body gap after : List Char} (hbody : '\n' ∉ body)
      (hend : ∀ c ∈ (gap ++ after).head?, c = '\n') (rest : Gap gap after) :
      Gap (';' :: (body ++ gap)) after

theorem scan_comment (out : List Token) (p : Pos) {body rest : List Char} (hbody : '\n' ∉ body)
    (hend : ∀ c ∈ rest.head?, c = '\n') :
    scan out .comment p (body ++ rest) = scan out .between (p.past body) rest := by
  induction body generalizing p with
  | nil =>
    cases rest with
    | nil => rfl
    | cons c rest =>
      obtain rfl : c = '\n' := hend c rfl
      rfl
  | cons c body ih =>
    obtain ⟨hc, hbody⟩ : '\n' ≠ c ∧ '\n' ∉ body := by simpa using hbody
    have hstep : step out p c .comment = .ok (out, .comment) := by rw [step, if_neg hc.symm]
    rw [List.cons_append, scan, hstep]
    exact ih (p.after c) hbody

/-- A scan passes over a gap. -/
theorem scan_gap (out : List Token) (p : Pos) {gap after : List Char} (h : Gap gap after) :
    scan out .between p (gap ++ after) = scan out .between (p.past gap) after := by
  induction h generalizing p with
  | nil => rfl
  | @blank c gap after hblank _ ih =>
    have hstep : step out p c .between = .ok (out, .between) := by rw [step, begin, if_pos hblank]
    rw [List.cons_append, scan, hstep]
    exact ih (p.after c)
  | @comment body gap after hbody hend _ ih =>
    have hpast : (p.after ';').past (body ++ gap) = ((p.after ';').past body).past gap :=
      List.foldl_append
    have hcomment : scan out .between p (';' :: (body ++ gap) ++ after) =
        scan out .comment (p.after ';') (body ++ (gap ++ after)) := by
      rw [← List.append_assoc]
      rfl
    rw [hcomment, scan_comment out _ hbody hend, ih, ← hpast]
    rfl

/-- Every text has a gap in front, up to the end or to something that is neither blank nor begins a
comment. -/
theorem exists_gap (s : List Char) :
    ∃ gap after, s = gap ++ after ∧ Gap gap after ∧
      ∀ c ∈ after.head?, Text.isBlank c = false ∧ c ≠ ';' := by
  induction hlength : s.length using Nat.strongRecOn generalizing s with
  | _ n ih =>
    subst hlength
    cases s with
    | nil => exact ⟨[], [], rfl, .nil, nofun⟩
    | cons c s =>
      by_cases hblank : Text.isBlank c = true
      · obtain ⟨gap, after, rfl, hgap, hafter⟩ := ih s.length (Nat.lt_succ_self _) s rfl
        exact ⟨c :: gap, after, rfl, .blank hblank hgap, hafter⟩
      by_cases hcomment : c = ';'
      · -- the comment is all up to the end of the line, and the gap goes on from there
        have hsplit := List.takeWhile_append_dropWhile (p := (· ≠ '\n')) (l := s)
        have hshort := (List.dropWhile_suffix (l := s) (· ≠ '\n')).length_le
        obtain ⟨gap, after, hrest, hgap, hafter⟩ := ih _ (Nat.lt_succ_of_le hshort) _ rfl
        have hbody : '\n' ∉ s.takeWhile (· ≠ '\n') := fun hmem => by
          simpa using List.mem_takeWhile_imp hmem
        have hend : ∀ d ∈ (gap ++ after).head?, d = '\n' := by
          intro d hd
          have hline := List.head?_dropWhile_not (· ≠ '\n') s
          rw [hrest, hd] at hline
          simpa using hline
        refine ⟨';' :: (s.takeWhile (· ≠ '\n') ++ gap), after, ?_, .comment hbody hend hgap, hafter⟩
        rw [hcomment, List.cons_append, List.append_assoc, ← hrest, hsplit]
      · refine ⟨[], c :: s, rfl, .nil, ?_⟩
        rintro _ ⟨⟩
        exact ⟨by simpa using hblank, hcomment⟩

/-! ## Lexemes -/

/-- The characters that a token of the given kind is cut from, in front of `after`. -/
inductive Lexeme : TokenKind → (text after : List Char) → Prop where
  /-- A bracket or quote mark is a token by itself. -/
  | single {c : Char} {kind : TokenKind} {after : List Char} (h : single? c = some kind) :
      Lexeme kind [c] after
  | comma {after : List Char} (h : after.head? ≠ some '@') : Lexeme .unquote [','] after
  | commaAt {after : List Char} : Lexeme .unquote [',', '@'] after
  /-- A string ends at its first quote that no backslash escapes. -/
  | string {body after : List Char} (h : inString false body = some false) :
      Lexeme .string ('"' :: (body ++ ['"'])) after
  /-- A symbol goes on as long as symbol characters follow. -/
  | symbol {name after : List Char} (hne : name ≠ []) (hall : name.all isSymbolChar = true)
      (hend : Delimited after) : Lexeme .symbol name after

theorem isBlank_of_single {c : Char} {kind : TokenKind} (h : single? c = some kind) :
    Text.isBlank c = false := by
  unfold single? at h
  repeat' split at h
  all_goals cases h
  · rename_i hquote
    rcases (by simpa using hquote : c = '\'' ∨ c = '`') with rfl | rfl <;> decide
  all_goals
    rename_i hc
    subst hc
    decide

/-- A scan cuts a lexeme into one token. -/
theorem scan_lexeme (out : List Token) (p : Pos) {kind : TokenKind} {text after : List Char}
    (h : Lexeme kind text after) :
    scan out .between p (text ++ after) =
      scan (⟨kind, String.ofList text, p⟩ :: out) .between (p.past text) after := by
  cases h with
  | @single c _ _ h =>
    have hstep : step out p c .between = .ok (token kind p [c] :: out, .between) := by
      simp [step, begin, isBlank_of_single h, h]
    rw [List.singleton_append, scan, hstep]
    rfl
  | comma h =>
    cases after with
    | nil => rfl
    | cons c after =>
      have hc : c ≠ '@' := fun hc => h (congrArg some hc)
      have hcut : step out (p.after ',') c (.comma p) =
          begin (⟨.unquote, String.ofList [','], p⟩ :: out) (p.after ',') c := by
        rw [step, if_neg hc]
        rfl
      exact scan_cut hcut after
  | commaAt => rfl
  | @string body _ h =>
    have hopen : scan out .between p ('"' :: (body ++ ['"']) ++ after) =
        scan out (.string p false ['"']) (p.after '"') (body ++ '"' :: after) := by
      rw [List.cons_append, List.append_assoc]
      rfl
    have hpast : p.past ('"' :: (body ++ ['"'])) = ((p.after '"').past body).after '"' :=
      Pos.past_snoc (p.after '"') body '"'
    rw [hopen, scan_string out p (p.after '"') ['"'] h, hpast]
    simp [scan, step, token]
  | symbol hne hall hend =>
    have hsymbol : IsSymbolText (String.ofList text) := ⟨by simpa using hne, by simpa using hall⟩
    simpa using cuts_symbol hsymbol p out after hend

/-- A string that does not stay open has a first quote that closes it. -/
theorem exists_closing {escaped : Bool} {s : List Char} (h : inString escaped s = none) :
    ∃ body after, s = body ++ '"' :: after ∧ inString escaped body = some false := by
  induction s generalizing escaped with
  | nil => cases h
  | cons c s ih =>
    cases escaped with
    | true =>
      have hrest : inString false s = none := h
      obtain ⟨body, after, rfl, hbody⟩ := ih hrest
      exact ⟨c :: body, after, rfl, hbody⟩
    | false =>
      by_cases hslash : c = '\\'
      · have hrest : inString true s = none := by simpa [inString, hslash] using h
        obtain ⟨body, after, rfl, hbody⟩ := ih hrest
        exact ⟨c :: body, after, rfl, by simpa [inString, hslash] using hbody⟩
      by_cases hquote : c = '"'
      · exact ⟨[], s, by rw [hquote]; rfl, rfl⟩
      · have hrest : inString false s = none := by simpa [inString, hslash, hquote] using h
        obtain ⟨body, after, rfl, hbody⟩ := ih hrest
        exact ⟨c :: body, after, rfl, by simpa [inString, hslash, hquote] using hbody⟩

/-- What is neither blank nor begins a comment is a lexeme or a string that is never closed. -/
theorem exists_lexeme {c : Char} (s : List Char) (hblank : Text.isBlank c = false)
    (hcomment : c ≠ ';') :
    (∃ kind text after, c :: s = text ++ after ∧ text ≠ [] ∧ Lexeme kind text after) ∨
      (c = '"' ∧ inString false s ≠ none) := by
  cases hsingle : single? c with
  | some kind => exact .inl ⟨kind, [c], s, rfl, List.cons_ne_nil _ _, .single hsingle⟩
  | none =>
    by_cases hcomma : c = ','
    · subst hcomma
      by_cases hat : s.head? = some '@'
      · obtain ⟨s, rfl⟩ := List.head?_eq_some_iff.1 hat
        exact .inl ⟨.unquote, [',', '@'], s, rfl, List.cons_ne_nil _ _, .commaAt⟩
      · exact .inl ⟨.unquote, [','], s, rfl, List.cons_ne_nil _ _, .comma hat⟩
    by_cases hquote : c = '"'
    · subst hquote
      cases hopen : inString false s with
      | some escaped => exact .inr ⟨rfl, nofun⟩
      | none =>
        obtain ⟨body, after, rfl, hbody⟩ := exists_closing hopen
        exact .inl ⟨.string, '"' :: (body ++ ['"']), after, by simp, List.cons_ne_nil _ _,
          .string hbody⟩
    · have hc : isSymbolChar c = true := by
        simp [isSymbolChar, hblank, hsingle, hcomment, hcomma, hquote]
      have hend : Delimited (s.dropWhile isSymbolChar) := by
        intro d rest hrest
        simpa [hrest] using List.head?_dropWhile_not (p := isSymbolChar) s
      refine .inl ⟨.symbol, c :: s.takeWhile isSymbolChar, s.dropWhile isSymbolChar, ?_,
        List.cons_ne_nil _ _, .symbol (List.cons_ne_nil _ _) ?_ hend⟩
      · rw [List.cons_append, List.takeWhile_append_dropWhile]
      · rw [List.all_cons, hc, Bool.true_and, List.all_eq_true]
        exact fun d hd => List.mem_takeWhile_imp hd

/-! ## Partitions -/

/-- The text `source`, which stands behind the text `before`, falls apart into gaps and the tokens,
and ends there or in a string that is never closed; the place of each token is counted from the text
in front of it, and so is that of the quote that opens the string. -/
inductive Partition : (before source : List Char) → List Token → Option Fault → Prop where
  | ended {before gap : List Char} (hgap : Gap gap []) : Partition before gap [] none
  | unclosed {before gap body : List Char} (hgap : Gap gap ('"' :: body))
      (hopen : inString false body ≠ none) :
      Partition before (gap ++ '"' :: body) []
        (some (.unterminatedString, .behind (before ++ gap)))
  | token {before gap after : List Char} {t : Token} {tokens : List Token} {fault : Option Fault}
      (hgap : Gap gap (t.text.toList ++ after)) (hlexeme : Lexeme t.kind t.text.toList after)
      (hpos : t.pos = .behind (before ++ gap))
      (rest : Partition (before ++ gap ++ t.text.toList) after tokens fault) :
      Partition before (gap ++ (t.text.toList ++ after)) (t :: tokens) fault

theorem exists_partition (before source : List Char) :
    ∃ tokens fault, Partition before source tokens fault := by
  induction hlength : source.length using Nat.strongRecOn generalizing before source with
  | _ n ih =>
    subst hlength
    obtain ⟨gap, rest, rfl, hgap, hrest⟩ := exists_gap source
    cases rest with
    | nil => exact ⟨[], none, by rw [List.append_nil]; exact .ended hgap⟩
    | cons c rest =>
      obtain ⟨hblank, hcomment⟩ := hrest c rfl
      rcases exists_lexeme rest hblank hcomment with
        ⟨kind, text, after, htext, hne, hlexeme⟩ | ⟨rfl, hopen⟩
      · have hshort : after.length < (gap ++ c :: rest).length := by
          have hpos := List.length_pos_iff.2 hne
          rw [htext, List.length_append, List.length_append]
          omega
        obtain ⟨tokens, fault, hafter⟩ := ih after.length hshort (before ++ gap ++ text) after rfl
        let t : Token := ⟨kind, String.ofList text, .behind (before ++ gap)⟩
        have htoken : t.text.toList = text := String.toList_ofList
        rw [htext] at hgap ⊢
        rw [← htoken] at hgap hlexeme hafter ⊢
        exact ⟨t :: tokens, fault, .token hgap hlexeme rfl hafter⟩
      · exact ⟨[], _, .unclosed hgap hopen⟩

/-- A scan cuts a partition into its tokens. -/
theorem Partition.scan_eq {before source : List Char} {tokens : List Token} {fault : Option Fault}
    (h : Partition before source tokens fault) (out : List Token) :
    scan out .between (.behind before) source = (tokens.reverse ++ out, fault) := by
  induction h generalizing out with
  | @ended before gap hgap =>
    have hscan := scan_gap out (.behind before) hgap
    rw [List.append_nil] at hscan
    rw [hscan]
    rfl
  | @unclosed before gap body hgap hopen =>
    obtain ⟨escaped, hescaped⟩ := Option.ne_none_iff_exists'.1 hopen
    have hstring :=
      scan_string out (.behind (before ++ gap)) ((Pos.behind (before ++ gap)).after '"')
      ['"'] hescaped []
    rw [List.append_nil] at hstring
    rw [scan_gap out _ hgap, Pos.behind_past]
    exact hstring
  | @token before gap after t tokens fault hgap hlexeme hpos _ ih =>
    have htoken : (⟨t.kind, String.ofList t.text.toList, .behind (before ++ gap)⟩ : Token) = t := by
      rw [String.ofList_toList, ← hpos]
    rw [scan_gap out _ hgap, Pos.behind_past, scan_lexeme out _ hlexeme,
      Pos.behind_past, htoken, ih,
      List.reverse_cons, List.append_assoc, List.singleton_append]

/-! ## What stands in front of a symbol -/

/-- The text does not end in a symbol character, unless that is the at sign of the mark `,@`, which
is then the token `last`. -/
def Bounded (before : List Char) (last : Option Token) : Prop :=
  ∀ c ∈ before.getLast?, isSymbolChar c = true →
    ∃ front, before = front ++ [',', '@'] ∧ last = some ⟨.unquote, ",@", .behind front⟩

theorem isSymbolChar_of_blank {c : Char} (h : Text.isBlank c = true) : isSymbolChar c = false := by
  simp [isSymbolChar, h]

theorem bounded_nil : Bounded [] none := nofun

/-- A text that ends in some other character is bounded. -/
theorem bounded_snoc {c : Char} (h : isSymbolChar c = false) (front : List Char)
    (last : Option Token) : Bounded (front ++ [c]) last := by
  intro d hd hsymbol
  obtain rfl : c = d := by simpa using hd
  exact absurd hsymbol (by simp [h])

theorem Lexeme.head {kind : TokenKind} {text after : List Char} (h : Lexeme kind text after) :
    ∃ c rest, text = c :: rest ∧ Text.isBlank c = false := by
  cases h with
  | single h => exact ⟨_, _, rfl, isBlank_of_single h⟩
  | comma | commaAt => exact ⟨_, _, rfl, by decide⟩
  | string h => exact ⟨_, _, rfl, by decide⟩
  | symbol hne hall =>
    obtain ⟨c, rest, rfl⟩ := List.exists_cons_of_ne_nil hne
    refine ⟨c, rest, rfl, ?_⟩
    by_contra hblank
    rw [List.all_cons, isSymbolChar_of_blank (by simpa using hblank)] at hall
    cases hall

theorem Lexeme.of_symbol {kind : TokenKind} {text after : List Char} (h : Lexeme kind text after)
    (hkind : kind = .symbol) : text.all isSymbolChar = true ∧ Delimited after := by
  cases h with
  | single h => exact absurd (hkind ▸ h) (single?_ne _).2
  | comma | commaAt | string => cases hkind
  | symbol _ hall hend => exact ⟨hall, hend⟩

/-- Behind a lexeme no symbol can follow at once, or the text up to there is bounded. -/
theorem Lexeme.bounded {kind : TokenKind} {text after : List Char} (h : Lexeme kind text after)
    (before : List Char) :
    Delimited after ∨
      Bounded (before ++ text) (some ⟨kind, String.ofList text, .behind before⟩) := by
  cases h with
  | single h => exact .inr (bounded_snoc (by simp [isSymbolChar, h]) before _)
  | comma => exact .inr (bounded_snoc (by decide) before _)
  | commaAt => exact .inr fun _ _ _ => ⟨before, rfl, rfl⟩
  | @string body _ h =>
    have hsnoc : before ++ '"' :: (body ++ ['"']) = (before ++ '"' :: body) ++ ['"'] := by simp
    rw [hsnoc]
    exact .inr (bounded_snoc (by decide) _ _)
  | symbol _ _ hend => exact .inl hend

/-- A gap in front of a lexeme ends in a blank. -/
theorem Gap.snoc {gap after : List Char} (h : Gap gap after) (hne : gap ≠ []) {c : Char}
    {rest : List Char} (hafter : after = c :: rest) (hblank : Text.isBlank c = false) :
    ∃ front d, gap = front ++ [d] ∧ Text.isBlank d = true := by
  induction h with
  | nil => exact absurd rfl hne
  | @blank c gap after hc _ ih =>
    by_cases hgap : gap = []
    · exact ⟨[], c, by rw [hgap]; rfl, hc⟩
    · obtain ⟨front, d, rfl, hd⟩ := ih hgap hafter
      exact ⟨c :: front, d, rfl, hd⟩
  | @comment body gap after _ hend _ ih =>
    by_cases hgap : gap = []
    · -- a comment runs up to a line end, and no lexeme begins with that
      obtain rfl : c = '\n' := hend c (by rw [hgap, hafter]; rfl)
      exact absurd hblank (by decide)
    · obtain ⟨front, d, rfl, hd⟩ := ih hgap hafter
      exact ⟨';' :: (body ++ front), d, by simp, hd⟩

/-- A symbol of a partition cannot be made longer: no symbol character follows, and in front of it
stands none that is not part of the token before. -/
theorem Partition.symbol_bounded {before source : List Char} {tokens : List Token}
    {fault : Option Fault} (h : Partition before source tokens fault) {last : Option Token}
    (hbefore : Delimited source ∨ Bounded before last) {earlier later : List Token} {t : Token}
    (htokens : tokens = earlier ++ t :: later) (hkind : t.kind = .symbol) :
    ∃ passed after, before ++ source = passed ++ (t.text.toList ++ after) ∧ t.pos = .behind passed ∧
      t.text.toList.all isSymbolChar = true ∧ Delimited after ∧
      Bounded passed (earlier.getLast?.or last) := by
  induction h generalizing last earlier with
  | ended | unclosed => cases earlier <;> cases htokens
  | @token before gap after u tokens fault hgap hlexeme hpos _ ih =>
    cases earlier with
    | nil =>
      obtain ⟨rfl, rfl⟩ := List.cons.inj htokens
      obtain ⟨hall, hend⟩ := hlexeme.of_symbol hkind
      obtain ⟨c, text, htext, hblank⟩ := hlexeme.head
      refine ⟨before ++ gap, after, by simp, hpos, hall, hend, ?_⟩
      rw [htext, List.all_cons, Bool.and_eq_true] at hall
      by_cases hne : gap = []
      · subst hne
        rw [List.append_nil]
        refine hbefore.resolve_left fun hdelimited => ?_
        have hc := hdelimited c (text ++ after) (by rw [htext]; rfl)
        exact absurd hall.1 (by simp [hc])
      · obtain ⟨front, d, rfl, hd⟩ :=
          hgap.snoc hne (show _ = c :: (text ++ after) by rw [htext]; rfl) hblank
        rw [← List.append_assoc]
        exact bounded_snoc (isSymbolChar_of_blank hd) _ _
    | cons v earlier =>
      obtain ⟨rfl, rfl⟩ := List.cons.inj htokens
      have hu : (⟨u.kind, String.ofList u.text.toList, .behind (before ++ gap)⟩ : Token) = u := by
        rw [String.ofList_toList, ← hpos]
      have hnext := hlexeme.bounded (before ++ gap)
      rw [hu] at hnext
      obtain ⟨passed, rest, hsource, hplace, hall, hend, hpassed⟩ := ih hnext rfl
      refine ⟨passed, rest, by rw [← hsource]; simp, hplace, hall, hend, ?_⟩
      cases earlier with
      | nil => exact hpassed
      | cons w earlier =>
        rw [List.getLast?_cons_cons]
        have hlast : ((w :: earlier).getLast?.or (some u)) = ((w :: earlier).getLast?.or last) := by
          simp [List.getLast?_cons]
        rwa [← hlast]

end Lexer

/-- The lexer divides every text in the one way in which it can be divided: into gaps and tokens up
to its end, or up to the quote of a string that is never closed, at which the only fault of a lexer
stands. Each token stands at the place that counts the lines and columns of the text in front of it.
A symbol cannot be made longer in either direction without reaching into another token. -/
theorem lex_partitions (source : List Char) :
    (∀ tokens fault, lex source = ⟨tokens, fault⟩ ↔ Lexer.Partition [] source tokens fault) ∧
    ∀ earlier t later, (lex source).tokens = earlier ++ t :: later → t.kind = .symbol →
      ∃ before after, source = before ++ (t.text.toList ++ after) ∧ t.pos = .behind before ∧
        t.text.toList.all Lexer.isSymbolChar = true ∧ Lexer.Delimited after ∧
        Lexer.Bounded before earlier.getLast? := by
  have hlex {tokens : List Token} {fault : Option Lexer.Fault}
      (h : Lexer.Partition [] source tokens fault) : lex source = ⟨tokens, fault⟩ := by
    have hscan : Lexer.scan [] .between .start source =
      (tokens.reverse ++ [], fault) := h.scan_eq []
    rw [lex, hscan]
    simp
  obtain ⟨tokens, fault, hpartition⟩ := Lexer.exists_partition [] source
  refine ⟨fun tokens' fault' => ⟨fun h => ?_, hlex⟩, fun earlier t later htokens hkind => ?_⟩
  · obtain ⟨rfl, rfl⟩ := Lexed.mk.inj ((hlex hpartition).symm.trans h)
    exact hpartition
  · rw [hlex hpartition] at htokens
    simpa using hpartition.symbol_bounded (.inr Lexer.bounded_nil) htokens hkind

/-- The at sign in front of the symbol `a` belongs to the token before; the string behind the
comment is never closed, since its second quote is escaped. -/
theorem lex_partitions_spliced :
    lex ",@a ;b\n\"c\\\"".toList = ⟨[⟨.unquote, ",@", ⟨1, 1⟩⟩, ⟨.symbol, "a", ⟨1, 3⟩⟩],
      some (.unterminatedString, ⟨2, 1⟩)⟩ ∧
    Lexer.Partition [] ",@a ;b\n\"c\\\"".toList [⟨.unquote, ",@", ⟨1, 1⟩⟩, ⟨.symbol, "a", ⟨1, 3⟩⟩]
      (some (.unterminatedString, ⟨2, 1⟩)) ∧
    ∃ before after, ",@a ;b\n\"c\\\"".toList = before ++ ("a".toList ++ after) ∧
      (⟨1, 3⟩ : Pos) = .behind before ∧ "a".toList.all Lexer.isSymbolChar = true ∧
      Lexer.Delimited after ∧ Lexer.Bounded before (some ⟨.unquote, ",@", ⟨1, 1⟩⟩) := by
  have hlex : lex ",@a ;b\n\"c\\\"".toList =
      ⟨[⟨.unquote, ",@", ⟨1, 1⟩⟩, ⟨.symbol, "a", ⟨1, 3⟩⟩],
        some (.unterminatedString, ⟨2, 1⟩)⟩ := by rfl
  obtain ⟨hpartition, hsymbol⟩ := lex_partitions ",@a ;b\n\"c\\\"".toList
  refine ⟨hlex, (hpartition _ _).1 hlex, ?_⟩
  exact hsymbol [⟨.unquote, ",@", ⟨1, 1⟩⟩] ⟨.symbol, "a", ⟨1, 3⟩⟩ [] (by rw [hlex]; rfl) rfl

end TemplateLisp
