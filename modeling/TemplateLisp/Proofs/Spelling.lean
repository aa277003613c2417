import TemplateLisp.Datum.Printer
import TemplateLisp.Proofs.Lexing
import TemplateLisp.Reader.Atom

/-!
# How printed atoms are read

`Lexer.Cuts p s ts` says that the lexer cuts the characters `s`, when they stand at `p` between
tokens and nothing behind them goes on with a symbol, into the tokens `ts`. Printed texts are put
together from pieces that are cut one by one (`Lexer.Cuts.append`).

For the leaves: a printed text is one string token that decodes to the text
(`decode_stringLiteral`), and a printed integer is one symbol token that denotes the integer
(`parse_intText`).
-/

namespace TemplateLisp

namespace Lexer

/-! ## Cutting a piece of text -/

/-- Nothing of the text could belong to a symbol in front of it. -/
def Delimited (s : List Char) : Prop := ∀ c cs, s = c :: cs → isSymbolChar c = false

theorem delimited_nil : Delimited [] := nofun

theorem delimited_cons {c : Char} (h : isSymbolChar c = false) (cs : List Char) :
    Delimited (c :: cs) := by
  rintro _ _ ⟨⟩
  exact h

theorem Delimited.append {s t : List Char} (hs : Delimited s) (ht : Delimited t) :
    Delimited (s ++ t) := by
  cases s with
  | nil => exact ht
  | cons c cs => exact delimited_cons (hs c cs rfl) _

/-- The characters `s` at the place `p`, between tokens, are cut into `ts`. -/
def Cuts (p : Pos) (s : List Char) (ts : List Token) : Prop :=
  ∀ out rest, Delimited rest →
    scan out .between p (s ++ rest) = scan (ts.reverse ++ out) .between (p.past s) rest

/-- A step that cuts off what is begun goes on as if nothing had been begun. -/
theorem scan_cut {out cut : List Token} {mode : Mode} {p : Pos} {c : Char}
    (h : step out p c mode = begin cut p c) (cs : List Char) :
    scan out mode p (c :: cs) = scan cut .between p (c :: cs) := by
  obtain ⟨out', mode', hbegin, -⟩ := begin_spec cut p c
  have hstep : step cut p c .between = begin cut p c := rfl
  rw [scan, scan, h, hstep, hbegin]

section
variable {p : Pos} {s s' : List Char} {ts ts' : List Token}

theorem Cuts.nil : Cuts p [] [] := fun _ _ _ => rfl

/-- Pieces are cut one by one if the second does not go on with a symbol of the first. -/
theorem Cuts.append (h : Cuts p s ts) (h' : Cuts (p.past s) s' ts') (hs' : Delimited s') :
    Cuts p (s ++ s') (ts ++ ts') := by
  intro out rest hrest
  have hpast : p.past (s ++ s') = (p.past s).past s' := List.foldl_append
  rw [List.append_assoc, h out (s' ++ rest) (hs'.append hrest), h' _ rest hrest, hpast,
    List.reverse_append, List.append_assoc]

theorem Cuts.blank (h : Cuts (p.after ' ') s ts) : Cuts p (' ' :: s) ts := by
  intro out rest hrest
  exact h out rest hrest

/-- A bracket or quote mark is a token by itself, whatever follows. -/
theorem Cuts.single {c : Char} {kind : TokenKind} (hblank : Text.isBlank c = false)
    (hsingle : single? c = some kind) (h : Cuts (p.after c) s ts) :
    Cuts p (c :: s) (⟨kind, String.ofList [c], p⟩ :: ts) := by
  intro out rest hrest
  have hstep : step out p c .between = .ok (token kind p [c] :: out, .between) := by
    simp [step, begin, hblank, hsingle]
  rw [List.cons_append, scan, hstep, List.reverse_cons, List.append_assoc]
  exact h _ rest hrest

/-- A comma is a token by itself if no at sign follows. -/
theorem Cuts.comma (hs : s.head? ≠ some '@') (hne : s ≠ []) (h : Cuts (p.after ',') s ts) :
    Cuts p (',' :: s) (⟨.unquote, ",", p⟩ :: ts) := by
  intro out rest hrest
  obtain ⟨c, cs, rfl⟩ := List.exists_cons_of_ne_nil hne
  have hc : c ≠ '@' := fun hc => hs (congrArg some hc)
  have hbegin : scan out (.comma p) (p.after ',') (c :: cs ++ rest) =
      scan (token .unquote p [','] :: out) .between (p.after ',') (c :: cs ++ rest) :=
    scan_cut (by rw [step, if_neg hc]) (cs ++ rest)
  rw [List.cons_append, List.reverse_cons, List.append_assoc]
  exact hbegin.trans (h _ rest hrest)

theorem Cuts.commaAt (h : Cuts ((p.after ',').after '@') s ts) :
    Cuts p (',' :: '@' :: s) (⟨.unquote, ",@", p⟩ :: ts) := by
  intro out rest hrest
  rw [List.reverse_cons, List.append_assoc]
  exact h _ rest hrest

end

/-! ## Symbols -/

theorem scan_symbol (out : List Token) (start p : Pos) (lexeme name : List Char) {rest : List Char}
    (hname : name.all isSymbolChar = true) (hrest : Delimited rest) :
    scan out (.symbol start lexeme) p (name ++ rest) =
      scan (token .symbol start (name.reverse ++ lexeme) :: out) .between (p.past name) rest := by
  induction name generalizing lexeme p with
  | nil =>
    cases rest with
    | nil => rfl
    | cons c cs =>
      have hc : ¬ isSymbolChar c = true := by simp [hrest c cs rfl]
      exact scan_cut (by rw [step, if_neg hc]; rfl) cs
  | cons c name ih =>
    rw [List.all_cons, Bool.and_eq_true] at hname
    have hstep : step out p c (.symbol start lexeme) = .ok (out, .symbol start (c :: lexeme)) := by
      rw [step, if_pos hname.1]
    rw [List.cons_append, scan, hstep, List.reverse_cons, List.append_assoc]
    exact ih (p.after c) (c :: lexeme) hname.2

/-- A text of symbol characters is one symbol token. -/
theorem cuts_symbol {text : String} (h : IsSymbolText text) (p : Pos) :
    Cuts p text.toList [⟨.symbol, text, p⟩] := by
  intro out rest hrest
  obtain ⟨hne, hall⟩ := h
  obtain ⟨c, name, hname⟩ : ∃ c name, text.toList = c :: name :=
    List.exists_cons_of_ne_nil (by simpa using hne)
  have htext : text = String.ofList (c :: name) := by rw [← hname, String.ofList_toList]
  rw [hname, List.all_cons, Bool.and_eq_true] at hall
  have hbegin : step out p c .between = .ok (out, .symbol p [c]) := by
    have hc := hall.1
    simp only [isSymbolChar, Bool.not_eq_true', Bool.or_eq_false_iff, decide_eq_false_iff_not,
      Option.isSome_eq_false_iff, Option.isNone_iff_eq_none] at hc
    simp [step, begin, hc, hall.1]
  rw [hname, List.cons_append, scan, hbegin]
  refine (scan_symbol out p (p.after c) [c] name hall.2 hrest).trans ?_
  simp [token, htext, Pos.past]

/-! ## Strings -/

theorem scan_string (out : List Token) (start p : Pos) {escaped escaped' : Bool}
    (lexeme : List Char) {body : List Char} (h : inString escaped body = some escaped')
    (rest : List Char) :
    scan out (.string start escaped lexeme) p (body ++ rest) =
      scan out (.string start escaped' (body.reverse ++ lexeme)) (p.past body) rest := by
  induction body generalizing escaped lexeme p with
  | nil =>
    cases h
    rfl
  | cons c body ih =>
    have hgo (mode : Bool) (hstep : step out p c (.string start escaped lexeme) =
          .ok (out, .string start mode (c :: lexeme)))
            (hbody : inString mode body = some escaped') :
        scan out (.string start escaped lexeme) p (c :: body ++ rest) =
          scan out (.string start escaped' ((c :: body).reverse ++ lexeme)) (p.past (c :: body))
            rest := by
      rw [List.cons_append, scan, hstep, List.reverse_cons, List.append_assoc]
      exact ih (p.after c) (c :: lexeme) hbody
    cases escaped with
    | true => exact hgo false rfl h
    | false =>
      rw [inString] at h
      by_cases hslash : c = '\\'
      · rw [if_pos hslash] at h
        exact hgo true (by simp [step, hslash]) h
      · rw [if_neg hslash] at h
        by_cases hquote : c = '"'
        · rw [if_pos hquote] at h
          cases h
        · rw [if_neg hquote] at h
          exact hgo false (by simp [step, hslash, hquote]) h

/-- A body between quotes is one string token. -/
theorem cuts_string {body : List Char} (h : inString false body = some false) (p : Pos) :
    Cuts p ('"' :: (body ++ ['"'])) [⟨.string, String.ofList ('"' :: (body ++ ['"'])), p⟩] := by
  intro out rest _
  have hopen : scan out .between p ('"' :: (body ++ ['"']) ++ rest) =
      scan out (.string p false ['"']) (p.after '"') (body ++ '"' :: rest) := by
    rw [List.cons_append, List.append_assoc]
    rfl
  have hpast : p.past ('"' :: (body ++ ['"'])) = ((p.after '"').past body).after '"' :=
    Pos.past_snoc (p.after '"') body '"'
  rw [hopen, scan_string out p (p.after '"') ['"'] h, hpast]
  simp [scan, step, token]

theorem inString_escapeChar (c : Char) : inString false (escapeChar c) = some false := by
  unfold escapeChar
  repeat' split
  all_goals simp_all [inString]

theorem inString_flatMap_escapeChar (s : List Char) :
    inString false (s.flatMap escapeChar) = some false := by
  induction s with
  | nil => rfl
  | cons c s ih =>
    rw [List.flatMap_cons, inString_append, inString_escapeChar, Option.bind_some, ih]

end Lexer

/-! ## What the tokens denote -/

section
open StringLiteral

theorem decodeBody_escapeChar (out : List Nat) (c : Char) (rest : List Char) :
    decodeBody out (escapeChar c ++ rest) = decodeBody (c.toNat :: out) rest := by
  unfold escapeChar
  by_cases hslash : c = '\\'
  · subst hslash
    simp [decodeBody, escaped]
  by_cases hquote : c = '"'
  · subst hquote
    simp [decodeBody, escaped]
  by_cases hline : c = '\n'
  · subst hline
    simp [decodeBody, escaped]
  by_cases htab : c = '\t'
  · subst htab
    simp [decodeBody, escaped]
  by_cases hreturn : c = '\r'
  · subst hreturn
    simp [decodeBody, escaped]
  · simp [hslash, hquote, hline, htab, hreturn, decodeBody]

theorem decodeBody_flatMap_escapeChar (out : List Nat) (s : List Char) :
    decodeBody out (s.flatMap escapeChar) = .ok (out.reverse ++ s.map Char.toNat) := by
  induction s generalizing out with
  | nil => simp [decodeBody]
  | cons c s ih =>
    rw [List.flatMap_cons, decodeBody_escapeChar, ih, List.reverse_cons, List.append_assoc,
      List.singleton_append, List.map_cons]

/-- A printed text decodes to the text. -/
theorem decode_stringLiteral (s : String) :
    decode (stringLiteral s) = .ok (s.toList.map Char.toNat) := by
  rw [stringLiteral, List.singleton_append, List.cons_append, decode_ofList,
    decodeBody_flatMap_escapeChar, List.reverse_nil, List.nil_append]

end

/-! ## Integers -/

/-- The decimal digits. -/
def decimalDigits : List Char := ['0', '1', '2', '3', '4', '5', '6', '7', '8', '9']

theorem mem_decimalDigits {c : Char} (h : c.isDigit = true) : c ∈ decimalDigits := by
  have hrange : 48 ≤ c.toNat ∧ c.toNat ≤ 57 := by
    simpa [Char.isDigit, UInt32.le_iff_toNat_le] using h
  have hcode : ∀ n, 48 ≤ n → n ≤ 57 → Char.ofNat n ∈ decimalDigits := by
    intro n hlow hhigh
    obtain rfl | rfl | rfl | rfl | rfl | rfl | rfl | rfl | rfl | rfl : n = 48 ∨ n = 49 ∨ n = 50 ∨
        n = 51 ∨ n = 52 ∨ n = 53 ∨ n = 54 ∨ n = 55 ∨ n = 56 ∨ n = 57 := by omega
    all_goals decide
  rw [← Char.ofNat_toNat c]
  exact hcode c.toNat hrange.1 hrange.2

theorem decimalDigits_spec : ∀ c ∈ decimalDigits, Lexer.isSymbolChar c = true ∧
    Text.isDigit c = true ∧ (Text.digitValue? c).getD 0 = c.toNat - '0'.toNat ∧
      c ≠ '-' ∧ c ≠ '+' := by
  have hall : decimalDigits.all (fun c => Lexer.isSymbolChar c && Text.isDigit c &&
      (Text.digitValue? c).getD 0 == c.toNat - '0'.toNat && c != '-' && c != '+') =
        true := by decide
  intro c hc
  have hspec := List.all_eq_true.1 hall c hc
  simp only [Bool.and_eq_true, beq_iff_eq, bne_iff_ne, and_assoc] at hspec
  exact hspec

theorem mem_toDigits {n : Nat} {c : Char} (h : c ∈ Nat.toDigits 10 n) : c ∈ decimalDigits :=
  mem_decimalDigits (Nat.isDigit_of_mem_toDigits (by decide) (by decide) h)

theorem digitsValue_toDigits (n : Nat) : Text.digitsValue (Nat.toDigits 10 n) = n := by
  have hfold : ∀ (s : List Char) (m : Nat), (∀ c ∈ s, c ∈ decimalDigits) →
      s.foldl (fun n c => 10 * n + (Text.digitValue? c).getD 0) m = Nat.ofDigitChars 10 s m := by
    intro s
    induction s with
    | nil => exact fun _ _ => rfl
    | cons c s ih =>
      intro m hs
      rw [List.foldl_cons, Nat.ofDigitChars_cons, ih _ fun d hd => hs d (.tail _ hd),
        (decimalDigits_spec c (hs c (.head _))).2.2.1]
  rw [Text.digitsValue, hfold _ 0 fun c => mem_toDigits, Nat.ofDigitChars_ten_toDigits]

theorem all_isDigit_toDigits (n : Nat) : (Nat.toDigits 10 n).all Text.isDigit = true :=
  List.all_eq_true.2 fun c hc => (decimalDigits_spec c (mem_toDigits hc)).2.1

theorem all_isSymbolChar_toDigits (n : Nat) : (Nat.toDigits 10 n).all Lexer.isSymbolChar = true :=
  List.all_eq_true.2 fun c hc => (decimalDigits_spec c (mem_toDigits hc)).1

theorem splitSign_toDigits (n : Nat) :
    Atom.splitSign (Nat.toDigits 10 n) = (false, Nat.toDigits 10 n) := by
  have hne : Nat.toDigits 10 n ≠ [] := Nat.toDigits_ne_nil
  obtain ⟨c, cs, hcs⟩ := List.exists_cons_of_ne_nil hne
  have hc : c ∈ decimalDigits := by
    refine @mem_toDigits n c ?_
    rw [hcs]
    exact .head _
  obtain ⟨-, -, -, hminus, hplus⟩ := decimalDigits_spec c hc
  rw [hcs, Atom.splitSign]
  · exact fun s hs => hminus (List.cons.inj hs).1
  · exact fun s hs => hplus (List.cons.inj hs).1

/-- The characters of a printed integer: a minus sign in front of a negative one, then digits. -/
theorem toList_toString_int (n : Int) :
    (toString n).toList = (if n < 0 then ['-'] else []) ++ Nat.toDigits 10 n.natAbs := by
  rw [Int.toString_eq_repr, Int.repr_eq_if]
  by_cases hneg : n < 0
  · have habs : (-n).toNat = n.natAbs := by omega
    rw [if_pos hneg, if_neg (by omega), String.toList_append, Nat.toList_repr, habs]
    rfl
  · have habs : n.toNat = n.natAbs := by omega
    rw [if_neg hneg, if_pos (by omega), Nat.toList_repr, habs, List.nil_append]

theorem splitSign_toString_int (n : Int) :
    Atom.splitSign (toString n).toList = (decide (n < 0), Nat.toDigits 10 n.natAbs) := by
  rw [toList_toString_int]
  by_cases hneg : n < 0
  · rw [if_pos hneg, decide_eq_true hneg]
    rfl
  · rw [if_neg hneg, decide_eq_false hneg, List.nil_append, splitSign_toDigits]

theorem isSymbolText_int (n : Int) : Lexer.IsSymbolText (toString n) := by
  have hlist := toList_toString_int n
  constructor
  · intro hempty
    rw [hempty] at hlist
    simp at hlist
  · rw [hlist, List.all_append, all_isSymbolChar_toDigits, Bool.and_true]
    split
    · decide
    · rfl

/-- What is below the bound has no more digits than may be written. -/
theorem lt_digitBound_iff (n : Nat) :
    n < Number.digitBound ↔ (Nat.toDigits 10 n).length ≤ Number.maxDigits := by
  have hlength : ∀ k, 0 < k → (n < Nat.pow 10 k ↔ (Nat.toDigits 10 n).length ≤ k) :=
    fun k hk => (Nat.length_toDigits_le_iff (by decide) hk).symm
  delta Number.digitBound
  exact hlength Number.maxDigits (by decide)

/-- A printed integer denotes the integer, if it is not too long to be printed. -/
theorem parse_intText {n : Int} (h : n.natAbs < Number.digitBound) :
    Atom.parse (toString n) = .ok (.num (.int n)) := by
  have hlength : ¬ Number.maxDigits < (Nat.toDigits 10 n.natAbs).length :=
    Nat.not_lt.2 ((lt_digitBound_iff n.natAbs).1 h)
  have hne : (Nat.toDigits 10 n.natAbs).isEmpty = false := by simp
  unfold Atom.parse
  simp only [splitSign_toString_int, hne, all_isDigit_toDigits, digitsValue_toDigits, hlength,
    Bool.not_false, Bool.and_self, if_true, if_false, decide_eq_true_eq]
  congr 3
  split <;> omega

end TemplateLisp
