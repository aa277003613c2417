import TemplateLisp.Proofs.ParserComplete

/-!
# The parser reads nothing but the grammar

`Parser.outcomesAt`: whatever tokens it is given, the parser finds a tree of the grammar at their
front and gives its datum, or it reports a fault at one of the tokens or the one that ended the
scan, or it finds an integer with too many digits. `Parser.all_outcome` says the same of whole
programs.
-/

namespace TemplateLisp.Parser

open TemplateLisp.Derivation (tokens tokensAll datumAll)

/-! ## What reading comes to -/

section
variable (ending : Option (SyntaxFault × Pos))

/-- A fault at the place of one of the tokens, the fault that ended the scan, or a failure because
one of the tokens is an integer with too many digits. -/
inductive Located (ts : List Token) : ReadFailure → Prop where
  | token {t : Token} (fault : SyntaxFault) (mem : t ∈ ts) : Located ts (.fault fault (some t.pos))
  | scan {fault : SyntaxFault} {pos : Pos} (eq : ending = some (fault, pos)) :
      Located ts (.fault fault (some pos))
  | literal {t : Token} {digits : Nat} (mem : t ∈ ts) (kind : t.kind = .symbol)
      (parse : Atom.parse t.text = .error (.tooManyDigits digits)) :
      Located ts (.literalTooLong digits)

/-- What reading one form comes to: a tree at the front of the tokens and its datum, or a fault. -/
def FormOutcome (ts : List Token) : Except ReadFailure (Datum × List Token) → Prop
  | .ok (d, rest) => ∃ x : Derivation, x.Valid ∧ x.tokens ++ rest = ts ∧ x.datum = d
  | .error f => Located ending ts f

/-- What follows a row of elements up to the bracket that closes `opener`: the bracket, or a dot and
one more tree before it. `row` says that there are elements. -/
inductive Tail (opener : Token) (row : Prop) : List Token → Datum → List Token → Prop where
  | closed {closer : Token} {rest : List Token} (closes : closes opener.kind closer.kind = true) :
      Tail opener row (closer :: rest) .nil rest
  | dotted {dot closer : Token} {last : Derivation} {rest : List Token}
      (closes : closes opener.kind closer.kind = true) (isDot : isDot opener dot = true)
      (nonempty : row) (valid : last.Valid) :
      Tail opener row (dot :: (last.tokens ++ closer :: rest)) last.datum rest

/-- What reading between brackets comes to: trees in a row and what ends it, or a fault. -/
def ItemsOutcome (opener : Token) (found : List Datum) (ts : List Token) :
    Except ReadFailure ((List Datum × Datum) × List Token) → Prop
  | .ok ((ds, tail), rest) => ∃ xs us, ts = tokensAll xs ++ us ∧ (∀ x ∈ xs, Derivation.Valid x) ∧
      (∀ x ∈ xs, ∀ t ts, x.tokens = t :: ts → isDot opener t = false) ∧
      ds = found.reverse ++ datumAll xs ∧ Tail opener (found ≠ [] ∨ xs ≠ []) us tail rest
  | .error f => Located ending (opener :: ts) f

variable {ending}

theorem Located.mono {ts us : List Token} {f : ReadFailure} (h : Located ending ts f)
    (hsub : ∀ t ∈ ts, t ∈ us) : Located ending us f := by
  cases h with
  | token fault mem => exact .token fault (hsub _ mem)
  | scan eq => exact .scan eq
  | literal mem kind parse => exact .literal (hsub _ mem) kind parse

/-- At the end of the tokens the parser reports the end of the scan or a fault of its own. -/
theorem atEnd_outcome (ending : Option (SyntaxFault × Pos)) (α : Type) (fault : SyntaxFault)
    {ts : List Token} {t : Token} (ht : t ∈ ts) :
    ∃ f, (atEnd ending (.fault fault (some t.pos)) : Except ReadFailure α) = .error f ∧
      Located ending ts f := by
  cases ending with
  | none => exact ⟨_, rfl, .token fault ht⟩
  | some e => exact ⟨_, rfl, .scan rfl⟩

theorem atom_outcome {t : Token} (hkind : t.kind = .symbol) (ts : List Token) :
    FormOutcome ending (t :: ts) ((atom t).map (·, ts)) := by
  cases hparse : Atom.parse t.text with
  | ok d =>
    have hatom : atom t = .ok d := by rw [atom, hparse]
    rw [hatom]
    have hspelt : Atom.parse t.text ≠ .error .malformedNumber := by
      rw [hparse]
      nofun
    exact ⟨.atom t, .atom hkind hspelt,
      rfl, by simp [Derivation.datum, Derivation.atomDatum, hparse]⟩
  | error f =>
    cases f with
    | malformedNumber =>
      have hatom : atom t = .error (.fault (.malformedNumber t.text) (some t.pos)) := by
        rw [atom, hparse]
        rfl
      rw [hatom]
      exact .token _ (.head _)
    | tooManyDigits digits =>
      have hatom : atom t = .error (.literalTooLong digits) := by rw [atom, hparse]
      rw [hatom]
      exact .literal (.head _) hkind hparse

theorem string_outcome {t : Token} (hkind : t.kind = .string) (ht : t.Terminated)
    (ts : List Token) : FormOutcome ending (t :: ts) ((string t).map (·, ts)) := by
  by_cases hescapes : ∃ digits, StringLiteral.decode t.text = .error (.badUnicodeEscape digits)
  · obtain ⟨digits, hdigits⟩ := hescapes
    have hstring : string t = .error (.fault (.badUnicodeEscape digits) (some t.pos)) := by
      rw [string, hdigits]
      rfl
    rw [hstring]
    exact Located.token _ (.head _)
  · have hok : ∀ digits, StringLiteral.decode t.text ≠ .error (.badUnicodeEscape digits) :=
      fun digits h => hescapes ⟨digits, h⟩
    rw [string_eq hkind ht hok]
    exact ⟨.string t, .string hkind hok, rfl, rfl⟩

/-- A key that is no atom is reported at the opening bracket. -/
theorem mapOf_bad_key (opener : Token) (done : List (Datum × Datum)) {es : List (Datum × Datum)}
    (h : ∃ e ∈ es, e.1.isAtom = false) :
    ∃ shown, mapOf opener done es = .error (.fault (.badMapKey shown) (some opener.pos)) := by
  induction es generalizing done with
  | nil => obtain ⟨_, he, _⟩ := h; cases he
  | cons e es ih =>
    obtain ⟨k, v⟩ := e
    rw [mapOf]
    by_cases hk : k.isAtom = true
    · rw [if_pos hk]
      refine ih _ ?_
      obtain ⟨e, he, hbad⟩ := h
      rcases List.mem_cons.1 he with rfl | he
      · rw [hk] at hbad
        cases hbad
      · exact ⟨e, he, hbad⟩
    · rw [if_neg hk]
      exact ⟨_, rfl⟩

theorem not_startsWithDot {opener : Token} (hopen : opener.kind = .openParen) {x : Derivation}
    (h : ∀ t ts, x.tokens = t :: ts → isDot opener t = false) : ¬ x.StartsWithDot := by
  rintro ⟨t, ts, ht, hkind, htext⟩
  have hfalse := h t ts ht
  simp [isDot, hopen, hkind, htext] at hfalse

/-- A row of keys and values in braces is a map unless one of its keys is no atom. -/
theorem enclosed_braces {opener closer : Token} (hopen : opener.kind = .openBrace)
    (hclose : closer.kind = .closeBrace) {xs : List Derivation}
    (hvalid : ∀ x ∈ xs, Derivation.Valid x) (rest : List Token) :
    FormOutcome ending (opener :: (tokensAll xs ++ closer :: rest))
      ((enclosed opener (datumAll xs) .nil).map (·, rest)) := by
  have hlength : (datumAll xs).length = xs.length := by
    rw [Derivation.datumAll_eq_map, List.length_map]
  by_cases hodd : xs.length % 2 = 1
  · have hfault : enclosed opener (datumAll xs) .nil =
        .error (.fault (.oddMap xs.length) (some opener.pos)) := by
      simp [enclosed, hopen, hlength, hodd, faultAt]
    rw [hfault]
    exact Located.token _ (.head _)
  obtain ⟨es, rfl⟩ := Derivation.exists_flatten (by omega : xs.length % 2 = 0)
  by_cases hkeys : ∀ e ∈ es, e.1.datum.isAtom = true
  · rw [enclosed_map hopen hkeys]
    exact ⟨.map opener es closer, .map hopen hclose hvalid hkeys,
      by simp [tokens, Derivation.tokensEntries_eq], rfl⟩
  · have hbad : ∃ e ∈ Derivation.datumEntries es, e.1.isAtom = false := by
      simp only [Classical.not_forall, Bool.not_eq_true] at hkeys
      obtain ⟨⟨k, v⟩, he, hkey⟩ := hkeys
      refine ⟨_, Derivation.mem_datumEntries he, ?_⟩
      rwa [Derivation.datumEntry]
    obtain ⟨shown, hmap⟩ := mapOf_bad_key opener [] hbad
    have hfault : enclosed opener (datumAll (Derivation.flatten es)) .nil =
        .error (.fault (.badMapKey shown) (some opener.pos)) := by
      unfold enclosed
      rw [hopen]
      dsimp only
      rw [if_neg (by omega), pairUp_flatten, hmap]
    rw [hfault]
    exact Located.token _ (.head _)

/-- A row of trees with what ends it makes a tree, or a fault at the opening bracket. -/
theorem enclosed_outcome {opener : Token} {xs : List Derivation}
    (hvalid : ∀ x ∈ xs, Derivation.Valid x)
    (hdot : ∀ x ∈ xs, ∀ t ts, x.tokens = t :: ts → isDot opener t = false)
    {us rest : List Token} {tail : Datum} (htail : Tail opener (xs ≠ []) us tail rest) :
    FormOutcome ending (opener :: (tokensAll xs ++ us))
      ((enclosed opener (datumAll xs) tail).map (·, rest)) := by
  cases htail with
  | @closed closer rest hcloses =>
    obtain ⟨hopen, hclose⟩ | ⟨hopen, hclose⟩ | ⟨hopen, hclose⟩ := closes_cases hcloses
    · have hlist : enclosed opener (datumAll xs) .nil =
          .ok (Datum.ofList (some opener.pos) .nil (datumAll xs)) := by rw [enclosed, hopen]
      rw [hlist]
      have hnoDot : ∀ x ∈ xs, ¬ x.StartsWithDot := fun x hx => not_startsWithDot hopen (hdot x hx)
      exact ⟨.list opener xs closer, .list hopen hclose hvalid hnoDot, by simp [tokens], rfl⟩
    · have hvector : enclosed opener (datumAll xs) .nil = .ok (.vector (datumAll xs)) := by
        rw [enclosed, hopen]
      rw [hvector]
      exact ⟨.vector opener xs closer, .vector hopen hclose hvalid, by simp [tokens], rfl⟩
    · exact enclosed_braces hopen hclose hvalid rest
  | @dotted dot closer last rest hcloses hisDot hrow hlast =>
    obtain ⟨⟨hopen, hkind⟩, htext⟩ : (opener.kind = .openParen ∧ dot.kind = .symbol) ∧
        dot.text = "." := by simpa [isDot] using hisDot
    have hlist : enclosed opener (datumAll xs) last.datum =
        .ok (Datum.ofList (some opener.pos) last.datum (datumAll xs)) := by rw [enclosed, hopen]
    have hclose : closer.kind = .closeParen := by
      rcases closes_cases hcloses with h | h | h <;> simp_all
    have hnoDot : ∀ x ∈ xs, ¬ x.StartsWithDot := fun x hx => not_startsWithDot hopen (hdot x hx)
    rw [hlist]
    exact ⟨.dotted opener xs dot last closer,
      .dotted hopen hclose hvalid hnoDot hrow hkind htext hlast, by simp [tokens], rfl⟩

/-- What follows a quote mark, from the reading of its operand. -/
theorem quoted_outcome {mark : Token} (hmark : mark.kind = .quote ∨ mark.kind = .unquote) {n : Nat}
    {ts : List Token}
    (hform : ts ≠ [] → FormOutcome ending ts (form ending n .unbounded ts)) :
    FormOutcome ending (mark :: ts) (quoted ending (n + 1) .unbounded mark ts) := by
  cases ts with
  | nil =>
    obtain ⟨f, hf, hlocated⟩ := atEnd_outcome ending (Datum × List Token)
      (.formExpectedAfter mark.text) (List.mem_singleton_self mark)
    have hquoted : quoted ending (n + 1) .unbounded mark [] = .error f := by
      rw [quoted.eq_def]
      exact hf
    rw [hquoted]
    exact hlocated
  | cons t ts =>
    rw [quoted_cons]
    by_cases hcloser : t.kind.isCloser = true
    · rw [if_pos hcloser]
      exact Located.token _ (.head _)
    rw [if_neg hcloser]
    have houtcome := hform (List.cons_ne_nil t ts)
    cases hread : form ending n .unbounded (t :: ts) with
    | error f =>
      rw [hread] at houtcome
      exact houtcome.mono fun _ => List.mem_cons_of_mem mark
    | ok r =>
      obtain ⟨d, rest⟩ := r
      rw [hread] at houtcome
      obtain ⟨x, hvalid, htokens, rfl⟩ := houtcome
      exact ⟨.quoted mark x, .quoted hmark hvalid, by rw [tokens, List.cons_append, htokens], rfl⟩

/-- A form between brackets, from the reading of what stands between them. -/
theorem bracketed_outcome {opener : Token} {n : Nat} {ts : List Token}
    (hitems : ItemsOutcome ending opener [] ts (items ending n .unbounded opener [] ts)) :
    FormOutcome ending (opener :: ts) (bracketed ending (n + 1) .unbounded opener ts) := by
  rw [bracketed_succ]
  cases hread : items ending n .unbounded opener [] ts with
  | error f =>
    rw [hread] at hitems
    exact hitems
  | ok r =>
    obtain ⟨⟨found, tail⟩, rest⟩ := r
    rw [hread] at hitems
    obtain ⟨xs, us, rfl, hvalid, hdot, rfl, htail⟩ := hitems
    have hrow : ([] ≠ ([] : List Datum) ∨ xs ≠ []) = (xs ≠ []) := by simp
    rw [hrow] at htail
    exact enclosed_outcome hvalid hdot htail

/-- The end of the tokens inside brackets. -/
theorem unmatched_outcome {opener : Token} (found : List Datum) (ts : List Token) :
    ItemsOutcome ending opener found ts
      (atEnd ending (.fault (.unmatched opener.text) (some opener.pos))) := by
  have hmem : opener ∈ opener :: ts := .head _
  obtain ⟨f, hf, hlocated⟩ := atEnd_outcome ending ((List Datum × Datum) × List Token)
    (.unmatched opener.text) hmem
  rw [hf]
  exact hlocated

/-- The last tail of a dotted list, from the reading of the form behind the dot. -/
theorem tail_outcome {opener dot : Token} {n : Nat} {found : List Datum} {ts : List Token}
    (hdot : isDot opener dot = true) (hfound : found.isEmpty = false)
    (hform : FormOutcome ending ts (form ending n .unbounded ts)) :
    ItemsOutcome ending opener found (dot :: ts) (do
      let (d, rest) ← form ending n .unbounded ts
      match rest with
      | [] => atEnd ending (.fault (.unmatched opener.text) (some opener.pos))
      | closer :: rest =>
        if (!closer.kind.isCloser) = true then faultAt .closerExpectedAfterTail closer
        else if closes opener.kind closer.kind then .ok ((found.reverse, d), rest)
        else faultAt (mismatch opener closer) closer) := by
  cases hread : form ending n .unbounded ts with
  | error f =>
    rw [hread] at hform
    exact hform.mono fun t ht => .tail _ (.tail _ ht)
  | ok r =>
    obtain ⟨d, rest⟩ := r
    rw [hread] at hform
    obtain ⟨x, hvalid, rfl, rfl⟩ := hform
    cases rest with
    | nil => exact unmatched_outcome found _
    | cons closer rest =>
      have hmem : closer ∈ opener :: dot :: (x.tokens ++ closer :: rest) := by simp
      show ItemsOutcome ending opener found _ (if _ then _ else _)
      by_cases hcloser : (!closer.kind.isCloser) = true
      · rw [if_pos hcloser]
        exact Located.token _ hmem
      rw [if_neg hcloser]
      by_cases hcloses : closes opener.kind closer.kind = true
      · rw [if_pos hcloses]
        have hne : found ≠ [] := by simpa using hfound
        exact ⟨[], _, rfl, by simp, by simp, by simp [datumAll],
          .dotted hcloses hdot (.inl hne) hvalid⟩
      · rw [if_neg hcloses]
        exact Located.token _ hmem

/-- One more element, from the reading of the elements behind it. -/
theorem ItemsOutcome.cons {opener t : Token} {found : List Datum} {x : Derivation}
    {ts rest : List Token} (hvalid : x.Valid) (htokens : x.tokens ++ rest = t :: ts)
    (hdot : isDot opener t = false) {r : Except ReadFailure ((List Datum × Datum) × List Token)}
    (h : ItemsOutcome ending opener (x.datum :: found) rest r) :
    ItemsOutcome ending opener found (t :: ts) r := by
  cases r with
  | error f =>
    refine Located.mono h fun u hu => ?_
    rw [← htokens]
    rcases List.mem_cons.1 hu with rfl | hu
    · exact .head _
    · exact .tail _ (List.mem_append_right _ hu)
  | ok r =>
    obtain ⟨⟨ds, tail⟩, left⟩ := r
    obtain ⟨xs, us, rfl, hvalids, hdots, rfl, htail⟩ := h
    refine ⟨x :: xs, us, ?_, ?_, ?_, ?_, ?_⟩
    · rw [← htokens, tokensAll, List.append_assoc]
    · exact List.forall_mem_cons.2 ⟨hvalid, hvalids⟩
    · refine List.forall_mem_cons.2 ⟨fun u us' hu => ?_, hdots⟩
      rw [hu, List.cons_append] at htokens
      obtain ⟨rfl, -⟩ := List.cons.inj htokens
      exact hdot
    · simp [datumAll]
    · cases htail with
      | closed hcloses => exact .closed hcloses
      | dotted hcloses hisDot _ hlast => exact .dotted hcloses hisDot (.inr (by simp)) hlast

variable (ending) in
/-- With `n` steps, every form of so many tokens comes to a tree or a fault. Three steps for each
token are enough, and one more between brackets. -/
def OutcomesAt (n : Nat) : Prop :=
  (∀ ts, ts ≠ [] → (∀ t ∈ ts, t.Terminated) → 3 * ts.length ≤ n →
    FormOutcome ending ts (form ending n .unbounded ts)) ∧
  (∀ opener found ts, (∀ t ∈ ts, t.Terminated) → 3 * ts.length + 1 ≤ n →
    ItemsOutcome ending opener found ts (items ending n .unbounded opener found ts))

theorem form_step {n : Nat} (h : OutcomesAt ending n) {t : Token} {ts : List Token}
    (hterminated : ∀ u ∈ t :: ts, u.Terminated) (hle : 3 * ts.length + 1 ≤ n) :
    FormOutcome ending (t :: ts) (form ending (n + 2) .unbounded (t :: ts)) := by
  have hsub : ∀ u ∈ ts, u.Terminated := fun u hu => hterminated u (.tail _ hu)
  have hquoted (hmark : t.kind = .quote ∨ t.kind = .unquote) :
      FormOutcome ending (t :: ts) (quoted ending (n + 1) .unbounded t ts) :=
    quoted_outcome hmark fun hts => h.1 ts hts hsub (by omega)
  have hbracketed : FormOutcome ending (t :: ts) (bracketed ending (n + 1) .unbounded t ts) :=
    bracketed_outcome (h.2 t [] ts hsub hle)
  rw [form_cons]
  cases hkind : t.kind with
  | symbol => exact atom_outcome hkind ts
  | string => exact string_outcome hkind (hterminated t (.head _)) ts
  | quote => exact hquoted (.inl hkind)
  | unquote => exact hquoted (.inr hkind)
  | openParen | openBracket | openBrace => exact hbracketed
  | closeParen | closeBracket | closeBrace => exact Located.token _ (.head _)

/-- The step on a token that begins an element. -/
theorem element_step {n : Nat} (h : OutcomesAt ending n) {opener t : Token} (found : List Datum)
    {ts : List Token} (hterminated : ∀ u ∈ t :: ts, u.Terminated) (hle : 3 * (ts.length + 1) ≤ n)
    (hdot : isDot opener t = false) :
    ItemsOutcome ending opener found (t :: ts) (do
      let (d, rest) ← form ending n .unbounded (t :: ts)
      items ending n .unbounded opener (d :: found) rest) := by
  have houtcome := h.1 (t :: ts) (List.cons_ne_nil t ts) hterminated hle
  cases hread : form ending n .unbounded (t :: ts) with
  | error f =>
    rw [hread] at houtcome
    exact houtcome.mono fun _ => .tail _
  | ok r =>
    obtain ⟨d, rest⟩ := r
    rw [hread] at houtcome
    obtain ⟨x, hvalid, htokens, rfl⟩ := houtcome
    obtain ⟨u, us, hu, -⟩ := hvalid.head
    -- the element takes a token at least, which pays for the step
    have hlength : rest.length ≤ ts.length := by
      have hsum := congrArg List.length htokens
      simp only [hu, List.length_append, List.length_cons] at hsum
      omega
    have hrest : ∀ u ∈ rest, u.Terminated := fun u hu =>
      hterminated u (htokens ▸ List.mem_append_right _ hu)
    exact .cons hvalid htokens hdot (h.2 opener _ rest hrest (by omega))

theorem items_step {n : Nat} (h : OutcomesAt ending n) {opener : Token} (found : List Datum)
    {ts : List Token} (hterminated : ∀ t ∈ ts, t.Terminated) (hle : 3 * ts.length ≤ n) :
    ItemsOutcome ending opener found ts (items ending (n + 1) .unbounded opener found ts) := by
  cases ts with
  | nil =>
    rw [items.eq_def]
    exact unmatched_outcome found []
  | cons t ts =>
    rw [items_cons]
    by_cases hcloser : t.kind.isCloser = true
    · rw [if_pos hcloser]
      by_cases hcloses : closes opener.kind t.kind = true
      · rw [if_pos hcloses]
        exact ⟨[], _, rfl, by simp, by simp, by simp [datumAll], .closed hcloses⟩
      · rw [if_neg hcloses]
        exact Located.token _ (.tail _ (.head _))
    rw [if_neg hcloser]
    by_cases hdot : isDot opener t = true
    · rw [if_pos hdot]
      cases hfound : found.isEmpty with
      | true => exact Located.token _ (.tail _ (.head _))
      | false =>
        cases ts with
        | nil => exact unmatched_outcome found [t]
        | cons u us =>
          have hsub : ∀ v ∈ u :: us, v.Terminated := fun v hv => hterminated v (.tail _ hv)
          simp only [List.length_cons] at hle
          exact tail_outcome hdot hfound
            (h.1 (u :: us) (List.cons_ne_nil u us) hsub (by simp only [List.length_cons]; omega))
    · rw [if_neg hdot]
      exact element_step h found hterminated hle (by simpa using hdot)

/-- The parser finds a tree of the grammar or says what is wrong with the tokens. -/
theorem outcomesAt (ending : Option (SyntaxFault × Pos)) (n : Nat) : OutcomesAt ending n := by
  induction n using Nat.strongRecOn with
  | ind n ih =>
    constructor
    · intro ts hne hterminated hle
      obtain ⟨t, ts, rfl⟩ := List.exists_cons_of_ne_nil hne
      simp only [List.length_cons] at hle
      obtain ⟨m, rfl⟩ : ∃ m, n = m + 2 := ⟨n - 2, by omega⟩
      exact form_step (ih m (by omega)) hterminated (by omega)
    · intro opener found ts hterminated hle
      obtain ⟨m, rfl⟩ : ∃ m, n = m + 1 := ⟨n - 1, by omega⟩
      exact items_step (ih m (by omega)) found hterminated (by omega)

/-! ## Programs -/

/-- What reading all forms comes to: a derivation of the tokens and its data, behind those found
before, or a fault. -/
def AllOutcome (ending : Option (SyntaxFault × Pos)) (found : List Datum) (ts : List Token) :
    Except ReadFailure (List Datum) → Prop
  | .ok ds => ending = none ∧
      ∃ forest, Derivation.Derives forest ts ∧ ds = found.reverse ++ forest.map Derivation.datum
  | .error f => Located ending ts f

theorem all_outcome {steps fuel : Nat} {ts : List Token} (found : List Datum)
    (hterminated : ∀ t ∈ ts, t.Terminated) (hsteps : 3 * ts.length ≤ steps)
    (hfuel : ts.length < fuel) :
    AllOutcome ending found ts (all ending .unbounded steps fuel found ts) := by
  induction fuel generalizing found ts with
  | zero => omega
  | succ n ih =>
    cases ts with
    | nil =>
      cases ending with
      | none => exact ⟨rfl, [], ⟨by simp, rfl⟩, by simp⟩
      | some e =>
        exact .scan rfl
    | cons t ts =>
      have houtcome :=
        (outcomesAt ending steps).1 (t :: ts) (List.cons_ne_nil t ts) hterminated hsteps
      rw [all]
      cases hread : form ending steps .unbounded (t :: ts) with
      | error f =>
        rw [hread] at houtcome
        exact houtcome
      | ok r =>
        obtain ⟨d, rest⟩ := r
        rw [hread] at houtcome
        obtain ⟨x, hvalid, htokens, rfl⟩ := houtcome
        obtain ⟨u, us, hu, -⟩ := hvalid.head
        have hsum := congrArg List.length htokens
        simp only [hu, List.length_append, List.length_cons] at hsum hsteps hfuel
        have hmem : ∀ u ∈ rest, u ∈ t :: ts := fun u hu => htokens ▸ List.mem_append_right _ hu
        have hall := ih (x.datum :: found) (fun u hu => hterminated u (hmem u hu))
          (by omega : 3 * rest.length ≤ steps) (by omega)
        show AllOutcome ending found (t :: ts)
          (all ending .unbounded steps n (x.datum :: found) rest)
        cases hrest : all ending .unbounded steps n (x.datum :: found) rest with
        | error f =>
          rw [hrest] at hall
          exact Located.mono hall hmem
        | ok ds =>
          rw [hrest] at hall
          obtain ⟨hend, forest, ⟨hforest, rfl⟩, rfl⟩ := hall
          refine ⟨hend, x :: forest, ⟨List.forall_mem_cons.2 ⟨hvalid, hforest⟩, ?_⟩, by simp⟩
          rw [List.flatMap_cons, htokens]

end

end TemplateLisp.Parser
