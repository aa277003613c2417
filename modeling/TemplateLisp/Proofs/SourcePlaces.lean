import Mathlib
import TemplateLisp.Proofs.Keys
import TemplateLisp.Proofs.LexingParts
import TemplateLisp.Proofs.ParserPlaces

/-!
# The places of forms

`read_places`: a pair that the reader labels with a place is what is read at that place of the
source, where an opening parenthesis or a quote mark stands, and the labelled pairs are exactly
those of the non-empty lists and quoted forms that are written there.

`Datum.placed` collects the labelled pairs of a datum and `Derivation.heads` the labelled forms of a
tree; the two agree by induction on the trees of the grammar (`Derivation.Valid.placed_perm`), in
another order because a value of a map stands where its key was first written
(`Derivation.written_values`). What is read at a place is found by lexing the rest of the text there
(`lex_token`) and parsing the same tree at moved tokens (`readFirst_of_tokens`).
-/

namespace TemplateLisp

namespace Datum

/-! ## The labelled pairs of a datum -/

mutual
/-- The pairs anywhere in a datum that carry a place, behind their place. -/
def placed : Datum → List (Pos × Datum)
  | .cons pos car cdr =>
    (pos.map fun p => (p, Datum.cons pos car cdr)).toList ++ (placed car ++ placed cdr)
  | .vector items => placedAll items
  | .tuple items => placedAll items
  | .map entries => placedEntries entries
  | _ => []

/-- The labelled pairs of data in a row. -/
def placedAll : List Datum → List (Pos × Datum)
  | [] => []
  | d :: ds => placed d ++ placedAll ds

/-- The labelled pairs of entries. -/
def placedEntries : List (Datum × Datum) → List (Pos × Datum)
  | [] => []
  | e :: es => placedEntry e ++ placedEntries es

/-- The labelled pairs of an entry. -/
def placedEntry : Datum × Datum → List (Pos × Datum)
  | (k, v) => placed k ++ placed v
end

/-- `placedAll` in the natural form. -/
theorem placedAll_eq_flatMap (ds : List Datum) : placedAll ds = ds.flatMap placed := by
  induction ds with
  | nil => rfl
  | cons d ds ih => rw [placedAll, ih, List.flatMap_cons]

theorem placed_of_isAtom {d : Datum} (h : d.isAtom = true) : d.placed = [] := by
  cases d <;> first | rfl | cases h

/-- Keys that are atoms hold no pairs, so those of the values are all. -/
theorem placedEntries_of_atoms {es : List (Datum × Datum)} (h : ∀ e ∈ es, e.1.isAtom = true) :
    placedEntries es = (es.map Prod.snd).flatMap placed := by
  induction es with
  | nil => rfl
  | cons e es ih =>
    obtain ⟨k, v⟩ := e
    obtain ⟨hk, hes⟩ := List.forall_mem_cons.1 h
    rw [placedEntries, placedEntry, placed_of_isAtom hk, ih hes, List.map_cons, List.flatMap_cons,
      List.nil_append]

/-- Of the pairs that make up a list only the first is labelled. -/
theorem placed_ofList_none (tail : Datum) (ds : List Datum) :
    (ofList none tail ds).placed = placedAll ds ++ tail.placed := by
  induction ds with
  | nil => rfl
  | cons d ds ih =>
    rw [ofList, placed, ih, placedAll, List.append_assoc]
    rfl

theorem placed_ofList_some (p : Pos) (tail : Datum) {ds : List Datum} (h : ds ≠ []) :
    (ofList (some p) tail ds).placed =
      (p, ofList (some p) tail ds) :: (placedAll ds ++ tail.placed) := by
  obtain ⟨d, ds, rfl⟩ := List.exists_cons_of_ne_nil h
  rw [ofList, placed, placed_ofList_none, placedAll, List.append_assoc]
  rfl

end Datum

namespace Derivation

/-! ## The values of a map literal -/

/-- The entries of a map literal that no later entry overwrites. -/
def kept : List (Datum × Datum) → List (Datum × Datum)
  | [] => []
  | e :: es =>
    if es.any fun e' => Datum.sameKey e.1 e'.1 then kept es else e :: kept es

theorem kept_append_singleton (es : List (Datum × Datum)) (k v : Datum) :
    kept (es ++ [(k, v)]) = (kept es).filter (fun e => !Datum.sameKey e.1 k) ++ [(k, v)] := by
  induction es with
  | nil => simp [kept]
  | cons e es ih =>
    rw [List.cons_append, kept, kept, ih]
    by_cases hlater : (es.any fun e' => Datum.sameKey e.1 e'.1) = true
    · simp [hlater]
    · by_cases hsame : Datum.sameKey e.1 k = true
      · simp [hlater, hsame]
      · simp [hlater, hsame]

theorem written_append_singleton (es : List (Datum × Datum)) (k v : Datum) :
    written (es ++ [(k, v)]) = Datum.putEntry k v (written es) := by
  rw [written, List.foldl_append]
  rfl

theorem distinctKeys_written (es : List (Datum × Datum)) : Datum.DistinctKeys (written es) := by
  induction es using List.reverseRecOn with
  | nil => exact .nil
  | append_singleton es e ih =>
    rw [written_append_singleton]
    exact ih.putEntry e.1 e.2

theorem filter_written_values (es : List (Datum × Datum)) {q : Datum → Bool}
    (hq : ∀ {a b}, Datum.sameKey a b = true → q a = q b) :
    (((written es).filter fun e => q e.1).map Prod.snd).Perm
      (((kept es).filter fun e => q e.1).map Prod.snd) := by
  -- the last entry takes the keys that it overwrites out of both sides, so this is for every `q`
  induction es using List.reverseRecOn generalizing q with
  | nil => exact .nil
  | append_singleton es e ih =>
    obtain ⟨k, v⟩ := e
    rw [written_append_singleton, kept_append_singleton, List.filter_append, List.filter_filter,
      List.map_append]
    have hq' : ∀ {a b}, Datum.sameKey a b = true →
        (q a && !Datum.sameKey a k) = (q b && !Datum.sameKey b k) := by
      intro a b hab
      rw [hq hab, Datum.sameKey_congr hab]
    refine (Datum.putEntry_values hq k v (distinctKeys_written es)).trans ((ih hq').append ?_)
    cases hk : q k <;> simp [hk]

/-- The values of a map literal are those of the entries that are not overwritten. -/
theorem written_values (es : List (Datum × Datum)) :
    ((written es).map Prod.snd).Perm ((kept es).map Prod.snd) := by
  have hall (l : List (Datum × Datum)) : l.filter (fun _ => true) = l :=
    List.filter_eq_self.2 fun _ _ => rfl
  have hperm := @filter_written_values es (fun _ => true) fun _ => rfl
  rwa [hall, hall] at hperm

/-! ## The labelled forms of a tree -/

mutual
/-- The non-empty lists and the quoted forms in a tree, behind their first token. Those in a value
of a map that a later entry overwrites are left out. -/
def heads : Derivation → List (Token × Derivation)
  | .atom _ => []
  | .string _ => []
  | .quoted mark operand => (mark, .quoted mark operand) :: heads operand
  | .list opener elements closer =>
    (if elements.isEmpty then [] else [(opener, .list opener elements closer)]) ++ headsAll elements
  | .dotted opener elements dot last closer =>
    (opener, .dotted opener elements dot last closer) :: (headsAll elements ++ heads last)
  | .vector _ items _ => headsAll items
  | .map _ entries _ => headsEntries entries

/-- The labelled forms of trees in a row. -/
def headsAll : List Derivation → List (Token × Derivation)
  | [] => []
  | d :: ds => heads d ++ headsAll ds

/-- The labelled forms of the entries that no later entry overwrites. -/
def headsEntries : List (Derivation × Derivation) → List (Token × Derivation)
  | [] => []
  | e :: es =>
    if es.any fun e' => Datum.sameKey e.1.datum e'.1.datum then headsEntries es
    else headsEntry e ++ headsEntries es

/-- The labelled forms of a key and its value. -/
def headsEntry : Derivation × Derivation → List (Token × Derivation)
  | (k, v) => heads k ++ heads v
end

/-- What a labelled form comes to in a datum: its datum at the place of its first token. -/
def label (h : Token × Derivation) : Pos × Datum := (h.1.pos, h.2.datum)

/-- `headsAll` in the natural form. -/
theorem headsAll_eq_flatMap (ds : List Derivation) : headsAll ds = ds.flatMap heads := by
  induction ds with
  | nil => rfl
  | cons d ds ih => rw [headsAll, ih, List.flatMap_cons]

theorem datumEntries_eq_map (es : List (Derivation × Derivation)) :
    datumEntries es = es.map datumEntry := by
  induction es with
  | nil => rfl
  | cons e es ih => rw [datumEntries, ih, List.map_cons]

theorem mem_headsEntries {es : List (Derivation × Derivation)} {h : Token × Derivation}
    (hmem : h ∈ headsEntries es) : ∃ d ∈ flatten es, h ∈ d.heads := by
  induction es with
  | nil => cases hmem
  | cons e es ih =>
    obtain ⟨k, v⟩ := e
    have hlater (hmem : h ∈ headsEntries es) : ∃ d ∈ flatten ((k, v) :: es), h ∈ d.heads := by
      obtain ⟨d, hd, hhead⟩ := ih hmem
      exact ⟨d, List.mem_append_right _ hd, hhead⟩
    rw [headsEntries] at hmem
    split at hmem
    · exact hlater hmem
    · rw [headsEntry, List.append_assoc, List.mem_append, List.mem_append] at hmem
      rcases hmem with hk | hv | hrest
      · exact ⟨k, .head _, hk⟩
      · exact ⟨v, .tail _ (.head _), hv⟩
      · exact hlater hrest

/-- The labels of a tree are those of its datum. -/
def Labels (d : Derivation) : Prop := d.datum.placed.Perm (d.heads.map label)

theorem placedAll_perm {ds : List Derivation} (h : ∀ d ∈ ds, Labels d) :
    (Datum.placedAll (datumAll ds)).Perm ((headsAll ds).map label) := by
  induction ds with
  | nil => exact .nil
  | cons d ds ih =>
    obtain ⟨hd, hds⟩ := List.forall_mem_cons.1 h
    rw [datumAll, Datum.placedAll, headsAll, List.map_append]
    exact List.Perm.append hd (ih hds)

theorem kept_perm {es : List (Derivation × Derivation)} (hkeys : ∀ e ∈ es, e.1.datum.isAtom = true)
    (h : ∀ d ∈ flatten es, Labels d) :
    (((kept (datumEntries es)).map Prod.snd).flatMap Datum.placed).Perm
      ((headsEntries es).map label) := by
  induction es with
  | nil => exact .nil
  | cons e es ih =>
    obtain ⟨k, v⟩ := e
    obtain ⟨hkey, hkeys⟩ := List.forall_mem_cons.1 hkeys
    have hk : Labels k := h k (.head _)
    have hv : Labels v := h v (.tail _ (.head _))
    have hrest := ih hkeys fun d hd => h d (List.mem_append_right _ hd)
    have hany : ((datumEntries es).any fun e' => Datum.sameKey k.datum e'.1) =
        es.any fun e' => Datum.sameKey k.datum e'.1.datum := by
      rw [datumEntries_eq_map, List.any_map]
      exact congrArg es.any (funext fun ⟨_, _⟩ => rfl)
    rw [datumEntries, datumEntry, kept, headsEntries, hany]
    split
    · exact hrest
    · have hnone : k.heads = [] := by
        rw [Labels, Datum.placed_of_isAtom hkey] at hk
        simpa using hk
      rw [headsEntry, hnone, List.nil_append, List.map_cons, List.flatMap_cons, List.map_append]
      exact List.Perm.append hv hrest

theorem written_keys {es : List (Datum × Datum)} {e : Datum × Datum} (he : e ∈ written es) :
    ∃ e' ∈ es, e'.1 = e.1 := by
  induction es using List.reverseRecOn generalizing e with
  | nil => cases he
  | append_singleton es x ih =>
    rw [written_append_singleton] at he
    rcases Datum.putEntry_keys he with hkey | ⟨y, hy, hkey⟩
    · exact ⟨x, List.mem_append_right _ (.head _), hkey.symm⟩
    · obtain ⟨z, hz, hkey'⟩ := ih hy
      exact ⟨z, List.mem_append_left _ hz, hkey'.trans hkey⟩

/-- The labelled pairs of what a tree denotes are its labelled forms. -/
theorem Valid.placed_perm {d : Derivation} (h : d.Valid) : Labels d := by
  induction h with
  | @atom t kind spelt =>
    have hatom : (atomDatum t).isAtom = true := by
      rw [atomDatum]
      cases hparse : Atom.parse t.text with
      | ok d => exact Parser.isAtom_of_parse hparse
      | error e => rfl
    rw [Labels, datum, Datum.placed_of_isAtom hatom]
    exact .nil
  | @string t kind escapes =>
    have hatom : (stringDatum t).isAtom = true := by
      rw [stringDatum]
      split
      · exact Datum.isAtom_ofCodes _
      · rfl
    rw [Labels, datum, Datum.placed_of_isAtom hatom]
    exact .nil
  | @quoted mark operand kind valid ih =>
    rw [Labels, datum, Datum.placed_ofList_some _ _ (List.cons_ne_nil _ _), heads, List.map_cons]
    refine .cons _ ?_
    simpa [Labels, Datum.placedAll, Datum.placed] using ih
  | @list opener closer elements opens closes valid noDot ih =>
    have hall := placedAll_perm ih
    rw [Labels, heads]
    cases elements with
    | nil => exact .nil
    | cons x xs =>
      have hne : datumAll (x :: xs) ≠ [] := List.cons_ne_nil _ _
      rw [datum, Datum.placed_ofList_some _ _ hne, Datum.placed_of_isAtom rfl, List.append_nil]
      exact .cons _ hall
  | @dotted opener dot closer elements last opens closes valid noDot nonempty _ _ _ ih ihLast =>
    have hne : datumAll elements ≠ [] := by
      obtain ⟨x, xs, rfl⟩ := List.exists_cons_of_ne_nil nonempty
      exact List.cons_ne_nil _ _
    rw [Labels, datum, Datum.placed_ofList_some _ _ hne, heads, List.map_cons, List.map_append]
    exact .cons _ ((placedAll_perm ih).append ihLast)
  | vector opens closes valid ih => exact placedAll_perm ih
  | @map opener closer entries opens closes valid keys ih =>
    have hatoms : ∀ e ∈ written (datumEntries entries), e.1.isAtom = true := by
      intro e he
      obtain ⟨e', he', hkey⟩ := written_keys he
      rw [← hkey]
      exact Parser.datumEntries_keys keys e' he'
    rw [Labels, datum, Datum.placed, Datum.placedEntries_of_atoms hatoms, heads]
    exact ((written_values _).flatMap_right _).trans (kept_perm keys ih)

/-! ## Where the labelled forms stand -/

/-- The token begins a form that is labelled. -/
def Opens (t : Token) : Prop :=
  t.kind = .openParen ∨ t.kind = .quote ∨ t.kind = .unquote

/-- The form is a tree of the grammar that begins with the token, within the tokens `ts`. -/
structure StandsIn (h : Token × Derivation) (ts : List Token) : Prop where
  valid : h.2.Valid
  first : ∃ us, h.2.tokens = h.1 :: us
  opens : Opens h.1
  within : h.2.tokens <:+: ts

theorem StandsIn.mono {h : Token × Derivation} {ts us : List Token} (hts : StandsIn h ts)
    (hsub : ts <:+: us) : StandsIn h us :=
  ⟨hts.valid, hts.first, hts.opens, hts.within.trans hsub⟩

theorem infix_tokensAll {d : Derivation} {ds : List Derivation} (hd : d ∈ ds) :
    d.tokens <:+: tokensAll ds := by
  obtain ⟨before, after, rfl⟩ := List.append_of_mem hd
  refine ⟨tokensAll before, tokensAll after, ?_⟩
  simp [tokensAll_eq_flatMap]

/-- A labelled form in one of the trees between brackets. -/
theorem standsIn_of_mem {ds : List Derivation} {h : Token × Derivation} {opener : Token}
    {rest : List Token} (ih : ∀ d ∈ ds, ∀ h ∈ d.heads, StandsIn h d.tokens) {d : Derivation}
    (hd : d ∈ ds) (hmem : h ∈ d.heads) : StandsIn h (opener :: (tokensAll ds ++ rest)) := by
  refine (ih d hd h hmem).mono ((infix_tokensAll hd).trans ?_)
  exact ⟨[opener], rest, by simp⟩

/-- A labelled form of a tree stands among the tokens of the tree. -/
theorem Valid.standsIn {d : Derivation} (hd : d.Valid) : ∀ h ∈ d.heads, StandsIn h d.tokens := by
  induction hd with
  | atom kind spelt => nofun
  | string kind escapes => nofun
  | @quoted mark operand kind valid ih =>
    intro h hmem
    rcases List.mem_cons.1 hmem with rfl | hmem
    · exact ⟨.quoted kind valid, ⟨_, rfl⟩, .inr kind, List.infix_rfl⟩
    · exact (ih h hmem).mono ⟨[mark], [], by simp [tokens]⟩
  | @list opener closer elements opens closes valid noDot ih =>
    intro h hmem
    rw [heads, List.mem_append] at hmem
    rcases hmem with hself | hmem
    · split at hself
      · cases hself
      · obtain rfl := List.mem_singleton.1 hself
        exact ⟨.list opens closes valid noDot, ⟨_, rfl⟩, .inl opens, List.infix_rfl⟩
    · rw [headsAll_eq_flatMap] at hmem
      obtain ⟨x, hx, hmem⟩ := List.mem_flatMap.1 hmem
      exact standsIn_of_mem ih hx hmem
  | @dotted opener dot closer elements last opens closes valid noDot nonempty kind text validLast ih
      ihLast =>
    intro h hmem
    rcases List.mem_cons.1 hmem with rfl | hmem
    · exact ⟨.dotted opens closes valid noDot nonempty kind text validLast, ⟨_, rfl⟩, .inl opens,
        List.infix_rfl⟩
    · rw [List.mem_append, headsAll_eq_flatMap] at hmem
      rcases hmem with hmem | hmem
      · obtain ⟨x, hx, hmem⟩ := List.mem_flatMap.1 hmem
        exact standsIn_of_mem ih hx hmem
      · exact (ihLast h hmem).mono
          ⟨opener :: (tokensAll elements ++ [dot]), [closer], by simp [tokens]⟩
  | vector opens closes valid ih =>
    intro h hmem
    rw [heads, headsAll_eq_flatMap] at hmem
    obtain ⟨x, hx, hmem⟩ := List.mem_flatMap.1 hmem
    exact standsIn_of_mem ih hx hmem
  | map opens closes valid keys ih =>
    intro h hmem
    obtain ⟨x, hx, hmem⟩ := mem_headsEntries hmem
    rw [tokens, tokensEntries_eq]
    exact standsIn_of_mem ih hx hmem

end Derivation

/-! ## Reading at a place -/

/-- Reads the datum at the front of a text and leaves what follows it. -/
def readFirst (room : Room) (source : List Char) : Except ReadFailure Datum :=
  let lexed := lex source
  (Parser.form lexed.fault (Parser.fuelFor lexed.tokens) room lexed.tokens).map (·.1)

/-- A text whose tokens begin with those of a tree, but for their places, begins with the datum of
the tree, but for its places. -/
theorem readFirst_of_tokens {source : List Char} {f : Pos → Pos} {d : Derivation}
    {rest : List Token} (hvalid : d.Valid) (hdecodable : ∀ t ∈ d.tokens, t.Decodable)
    (htokens : (lex source).tokens.map (Token.moved f) = d.tokens ++ rest) :
    ∃ x, readFirst .unbounded source = .ok x ∧ x.moved f = d.datum := by
  obtain ⟨t, ts, ht, -⟩ := hvalid.head
  have hlength : (d.tokens ++ rest).length = (lex source).tokens.length := by
    rw [← htokens, List.length_map]
  have hne : (lex source).tokens ≠ [] := by
    rintro hnil
    rw [hnil, ht] at htokens
    cases htokens
  have hmoved : Parser.form (movedEnding f (lex source).fault)
      (Parser.fuelFor (lex source).tokens) .unbounded (d.tokens ++ rest) = .ok (d.datum, rest) := by
    refine Parser.form_complete hvalid hdecodable _ _ ?_
    rw [List.length_append] at hlength
    rw [Parser.fuelFor]
    omega
  have houtcome := (Parser.outcomesAt (lex source).fault (Parser.fuelFor (lex source).tokens)).1
    (lex source).tokens hne (fun _ => lex_string_decodable) (by rw [Parser.fuelFor]; omega)
  have hmoves := (Parser.movesAt f (Nat.le_refl (Parser.fuelFor (lex source).tokens))).form
    (lex source).fault .unbounded (lex source).tokens
  rw [htokens, hmoved] at hmoves
  rw [readFirst]
  cases hform : Parser.form (lex source).fault (Parser.fuelFor (lex source).tokens) .unbounded
      (lex source).tokens with
  | error e =>
    rw [hform] at houtcome hmoves
    rcases hmoves with hdeep | hmoves
    · cases hdeep
      cases houtcome
    · cases hmoves
  | ok r =>
    rw [hform] at hmoves
    rcases hmoves with hdeep | hmoves
    · cases hdeep
    · obtain ⟨hdatum, -⟩ := Prod.mk.inj (Except.ok.inj hmoves)
      exact ⟨r.1, rfl, hdatum.symm⟩

theorem Lexer.MarkText.of_opens {t : Token} (h : MarkText t) (hopens : Derivation.Opens t) :
    ∃ mark rest, t.text.toList = mark :: rest ∧ mark ∈ ['(', '\'', '`', ','] := by
  rcases hopens with hkind | hkind | hkind
  · rw [h.1 hkind]
    exact ⟨'(', [], rfl, by decide⟩
  · rcases h.2.1 hkind with htext | htext <;> rw [htext]
    · exact ⟨'\'', [], rfl, by decide⟩
    · exact ⟨'`', [], rfl, by decide⟩
  · rcases h.2.2 hkind with htext | htext <;> rw [htext]
    · exact ⟨',', [], rfl, by decide⟩
    · exact ⟨',', ['@'], rfl, by decide⟩

/-- A labelled form is what is read at the place of its first token. -/
theorem Derivation.StandsIn.readFirst {source : List Char} {h : Token × Derivation}
    (hstands : StandsIn h (lex source).tokens)
    (hdecodable : ∀ t ∈ (lex source).tokens, t.Decodable) :
    ∃ before mark after, source = before ++ mark :: after ∧ h.1.pos = Pos.behind before ∧
      mark ∈ ['(', '\'', '`', ','] ∧
      ∃ d, readFirst .unbounded (mark :: after) = .ok d ∧ d.moved h.1.pos.within = h.2.datum := by
  obtain ⟨hvalid, ⟨us, hfirst⟩, hopens, earlier, later, htokens⟩ := hstands
  have hsplit : (lex source).tokens = earlier ++ h.1 :: (us ++ later) := by
    rw [← htokens, hfirst]
    simp
  have hmem : ∀ t ∈ h.2.tokens, t ∈ (lex source).tokens := by
    intro t ht
    rw [← htokens]
    exact List.mem_append_left _ (List.mem_append_right _ ht)
  obtain ⟨before, after, hsource, hpos, hrest, -⟩ := lex_token hsplit
  obtain ⟨mark, more, htext, hmark⟩ :=
    (lex_marks (hmem h.1 (hfirst ▸ List.mem_cons_self))).of_opens hopens
  rw [htext, List.cons_append] at hsource hrest
  have htree : (lex (mark :: (more ++ after))).tokens.map (Token.moved h.1.pos.within) =
      h.2.tokens ++ later := by
    rw [hrest, hfirst]
    rfl
  exact ⟨before, mark, more ++ after, hsource, hpos, hmark,
    readFirst_of_tokens hvalid (fun t ht => hdecodable t (hmem t ht)) htree⟩

/-- The pairs that are labelled with a place are the non-empty lists and the quoted forms of the
source, but for those in an overwritten value of a map. Each of them is labelled with the line and
the column of the parenthesis or mark that it begins with, and is what is read there. -/
theorem read_places {room : Room} {source : String} {ds : List Datum}
    (h : read room source = .ok ds) :
    (∀ p cell, (p, cell) ∈ ds.flatMap Datum.placed → ∃ before mark after,
      source.toList = before ++ mark :: after ∧ p = Pos.behind before ∧
      mark ∈ ['(', '\'', '`', ','] ∧ ∃ d, readFirst .unbounded (mark :: after) = .ok d ∧
        d.unplaced = cell.unplaced ∧ d.moved p.within = cell) ∧
    ∃ forest, Derivation.Derives forest (lex source.toList).tokens ∧
      ds = forest.map Derivation.datum ∧
      (ds.flatMap Datum.placed).Perm ((forest.flatMap Derivation.heads).map Derivation.label) := by
  obtain ⟨-, hdecodable, forest, ⟨hvalid, htokens⟩, rfl⟩ := read_ok (read_unbounded h)
  have hperm : ((forest.map Derivation.datum).flatMap Datum.placed).Perm
      ((forest.flatMap Derivation.heads).map Derivation.label) := by
    rw [← Derivation.datumAll_eq_map, ← Datum.placedAll_eq_flatMap,
      ← Derivation.headsAll_eq_flatMap]
    exact Derivation.placedAll_perm fun d hd => (hvalid d hd).placed_perm
  refine ⟨fun p cell hmem => ?_, forest, ⟨hvalid, htokens⟩, rfl, hperm⟩
  obtain ⟨x, hx, hlabel⟩ := List.mem_map.1 (hperm.mem_iff.1 hmem)
  obtain ⟨tree, htree, hx⟩ := List.mem_flatMap.1 hx
  obtain ⟨rfl, rfl⟩ := Prod.mk.inj hlabel
  have hstands : Derivation.StandsIn x (lex source.toList).tokens := by
    rw [← htokens, ← Derivation.tokensAll_eq_flatMap]
    exact ((hvalid tree htree).standsIn x hx).mono (Derivation.infix_tokensAll htree)
  obtain ⟨before, mark, after, hsource, hpos, hmark, d, hread, hdatum⟩ :=
    hstands.readFirst hdecodable
  refine ⟨before, mark, after, hsource, hpos, hmark, d, hread, ?_, hdatum⟩
  rw [← Datum.unplaced_moved x.1.pos.within d, hdatum]

/-- A dotted list whose tail is a list, and a map that overwrites a list with a quoted form. -/
def overwritingSource : String := "(a . (b))\n\x7bk (c) k ,d\x7d"

/-- What the text is read as. The list at the sixth column of the second line is lost. -/
def overwritingData : List Datum :=
  [.cons (some ⟨1, 1⟩) (.sym ⟨"a"⟩) (.cons (some ⟨1, 6⟩) (.sym ⟨"b"⟩) .nil),
    .map [(.sym ⟨"k"⟩,
      .cons (some ⟨2, 10⟩) (.sym ⟨"unquote"⟩) (.cons none (.sym ⟨"d"⟩) .nil))]]

/-- The tail of the dotted list and the quoted form in the map are labelled and read at their
places. -/
theorem read_places_overwriting :
    read .unbounded overwritingSource = .ok overwritingData ∧
    (overwritingData.flatMap Datum.placed).map Prod.fst = [⟨1, 1⟩, ⟨1, 6⟩, ⟨2, 10⟩] ∧
    ∀ p cell, (p, cell) ∈ overwritingData.flatMap Datum.placed → ∃ before mark after,
      overwritingSource.toList = before ++ mark :: after ∧ p = Pos.behind before ∧
      mark ∈ ['(', '\'', '`', ','] ∧ ∃ d, readFirst .unbounded (mark :: after) = .ok d ∧
        d.unplaced = cell.unplaced ∧ d.moved p.within = cell := by
  have hread : read .unbounded overwritingSource = .ok overwritingData := by cbv
  exact ⟨hread, rfl, (read_places hread).1⟩

end TemplateLisp
