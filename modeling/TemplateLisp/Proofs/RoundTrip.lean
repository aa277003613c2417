import TemplateLisp.Proofs.PrintedData

/-!
# Printed data read back

`Datum.Printable.readOne_text`: the readable text of a printable datum reads as the datum, positions
aside. Two kinds of list are not printable. One that has the symbol of the dot among its elements
prints it where the parser takes it for the dot of a dotted list, and the unquoting of a symbol
whose name starts with an at sign prints as a splicing.
-/

namespace TemplateLisp

/-- The symbol is what its name reads as: one symbol token that denotes the symbol. -/
def Symbol.IsSpelt (s : Symbol) : Prop :=
  ∃ t, lex s.name.toList = ⟨[t], none⟩ ∧ t.kind = .symbol ∧ Atom.parse t.text = .ok (.sym s)

/-- The data whose readable text reads as they are. -/
inductive Datum.Printable : Datum → Prop where
  | nil : Printable .nil
  | bool (b : Bool) : Printable (.bool b)
  | int {n : Int} (short : n.natAbs < Number.digitBound) : Printable (.num (.int n))
  | str (s : String) : Printable (.str s)
  | sym {s : Symbol} (spelt : s.IsSpelt) : Printable (.sym s)
  | cons {pos : Option Pos} {car cdr : Datum} (first : Printable car) (rest : Printable cdr)
      (noDot : car ≠ .sym ⟨"."⟩)
      (noAt : ∀ pos s, car = .sym ⟨"unquote"⟩ → cdr = .cons pos (.sym s) .nil →
        s.name.toList.head? ≠ some '@') : Printable (.cons pos car cdr)
  | vector {items : List Datum} (all : ∀ d ∈ items, Printable d) : Printable (.vector items)
  | map {entries : List (Datum × Datum)} (keys : ∀ e ∈ entries, Printable e.1)
      (values : ∀ e ∈ entries, Printable e.2) (atoms : ∀ e ∈ entries, e.1.isAtom = true)
      (distinct : entries.Pairwise fun e f => sameKey e.1 f.1 = false) : Printable (.map entries)

/-- The printer spells the datum. It begins with an at sign only for a symbol whose name does. -/
def Legible (d : Datum) : Prop :=
  ∃ s, Printed d s ∧ Spells s d ∧
    (s.head? = some '@' → ∃ a, d = .sym a ∧ a.name.toList.head? = some '@')

/-- The printer spells the datum as the rest of a list. -/
def LegibleTail (d : Datum) : Prop := ∃ s, PrintedTail d s ∧ TailSpells s d

theorem Legible.tail {d : Datum} (h : Legible d) (hnil : d ≠ .nil)
    (hcons : ∀ pos car cdr, d ≠ .cons pos car cdr) : LegibleTail d := by
  obtain ⟨s, hprinted, hspells, -⟩ := h
  exact ⟨_, .dotted hprinted hnil hcons, .dotted hspells⟩

/-- Data that are legible one by one are legible in a row. -/
theorem legible_row {ds : List Datum} (h : ∀ d ∈ ds, Legible d) :
    ∃ s, PrintedRow ds s ∧ RowSpells s ds := by
  induction ds with
  | nil => exact ⟨[], .nil, .nil⟩
  | cons d ds ih =>
    obtain ⟨s, hprinted, hspells, -⟩ := h d (.head _)
    cases ds with
    | nil => exact ⟨s, .single hprinted, .single hspells⟩
    | cons d' ds =>
      obtain ⟨t, hprinted', hspells'⟩ := ih fun x hx => h x (.tail _ hx)
      exact ⟨_, .cons hprinted hprinted', .cons hspells hspells'⟩

/-- A token that denotes a symbol is the name of the symbol. -/
theorem parse_eq_sym {text : String} {a : Symbol} (h : Atom.parse text = .ok (.sym a)) :
    a.name = text := by
  unfold Atom.parse at h
  dsimp only at h
  repeat' split at h
  all_goals cases h
  rfl

/-- A symbol that is spelt is what its name denotes. -/
theorem Symbol.IsSpelt.name_spec {a : Symbol} (h : a.IsSpelt) :
    Lexer.IsSymbolText a.name ∧ Atom.parse a.name = .ok (.sym a) := by
  obtain ⟨t, hlex, hkind, hparse⟩ := h
  have hmem : t ∈ (lex a.name.toList).tokens := by
    rw [hlex]
    exact .head _
  rw [parse_eq_sym hparse]
  exact ⟨(lex_wellCut hmem).2 hkind, hparse⟩

theorem legible_atom {d : Datum} (text : String)
    (hprinted : ∀ out, Datum.write true out d = out ++ text) (htext : Lexer.IsSymbolText text)
    (hparse : Atom.parse text = .ok d)
    (hat : text.toList.head? = some '@' → ∃ a, d = .sym a ∧ a.name.toList.head? = some '@') :
    Legible d :=
  ⟨text.toList, fun out => by rw [hprinted, String.ofList_toList], spells_atom htext hparse, hat⟩

theorem legible_int {n : Int} (h : n.natAbs < Number.digitBound) : Legible (.num (.int n)) := by
  refine legible_atom (toString n) (fun _ => rfl) (isSymbolText_int n) (parse_intText h) ?_
  intro hat
  have hmem : '@' ∈ (toString n).toList := List.mem_of_mem_head? hat
  rw [toList_toString_int, List.mem_append] at hmem
  rcases hmem with hsign | hdigit
  · split at hsign <;> simp at hsign
  · exact absurd (mem_toDigits hdigit) (by decide)

theorem legible_str (s : String) : Legible (.str s) := by
  refine ⟨(stringLiteral s).toList, fun out => ?_, spells_string s, ?_⟩
  · rw [String.ofList_toList]
    rfl
  · rw [stringLiteral, String.toList_ofList]
    intro h
    simp at h

/-- A mark is no at sign, and the unquoting mark is only that of `unquote`. -/
theorem quoteMark?_spec {a : Symbol} {mark : String} (h : quoteMark? a = some mark) :
    (∃ c cs, mark.toList = c :: cs ∧ c ≠ '@') ∧ (mark = "," → a = ⟨"unquote"⟩) := by
  obtain ⟨name⟩ := a
  unfold quoteMark? at h
  repeat' split at h
  all_goals cases h
  all_goals rename_i hname; cases hname
  all_goals exact ⟨⟨_, _, rfl, by decide⟩, by decide⟩

theorem legible_cons {pos : Option Pos} {car cdr : Datum} (first : Legible car)
    (rest : LegibleTail cdr) (operand : ∀ pos' d, cdr = .cons pos' d .nil → Legible d)
    (noDot : car ≠ .sym ⟨"."⟩)
    (noAt : ∀ pos s, car = .sym ⟨"unquote"⟩ → cdr = .cons pos (.sym s) .nil →
      s.name.toList.head? ≠ some '@') : Legible (.cons pos car cdr) := by
  obtain ⟨a, mark, pos', d, rfl, rfl, hmark, hwrite⟩ | hwrite := write_cons pos car cdr
  · obtain ⟨s, hprinted, hspells, hat⟩ := operand pos' d rfl
    obtain ⟨⟨c, cs, hchars, hc⟩, hunquote⟩ := quoteMark?_spec hmark
    refine ⟨mark.toList ++ s, fun out =>
      ?_, hspells.quoted hmark (fun hcomma hhead => ?_) pos pos', ?_⟩
    · rw [hwrite, hprinted]
      simp [← String.toList_inj]
    · obtain ⟨b, rfl, hb⟩ := hat hhead
      exact noAt pos' b (by rw [hunquote hcomma]) rfl hb
    · rw [hchars]
      intro h
      exact absurd (Option.some.inj h) hc
  · obtain ⟨s, hprinted, hspells, -⟩ := first
    obtain ⟨t, hprintedTail, hspellsTail⟩ := rest
    refine ⟨'(' :: (s ++ t), fun out => ?_, hspellsTail.list hspells noDot pos, nofun⟩
    rw [hwrite, hprinted, hprintedTail]
    simp [← String.toList_inj]

theorem legible_map {entries : List (Datum × Datum)} (keys : ∀ e ∈ entries, Legible e.1)
    (values : ∀ e ∈ entries, Legible e.2) (atoms : ∀ e ∈ entries, e.1.isAtom = true)
    (distinct : entries.Pairwise fun e f => Datum.sameKey e.1 f.1 = false) :
    Legible (.map entries) := by
  have hrow : ∀ d ∈ flatEntries entries, Legible d := by
    intro d hd
    obtain ⟨e, he, hmem⟩ := List.mem_flatMap.1 hd
    simp only [List.mem_cons, List.not_mem_nil, or_false] at hmem
    rcases hmem with rfl | rfl
    · exact keys e he
    · exact values e he
  obtain ⟨s, hprinted, hspells⟩ := legible_row hrow
  exact ⟨_, hprinted.map, hspells.map atoms distinct, nofun⟩

/-- Printable data are legible, by themselves and as the rest of a list. The last part is for the
operand of a quoting, which stands two pairs deep. -/
theorem Datum.Printable.legible {d : Datum} (h : d.Printable) :
    Legible d ∧ LegibleTail d ∧ ∀ pos a, d = .cons pos a .nil → Legible a := by
  induction h with
  | nil =>
    have hd : Legible .nil := legible_atom "nil" (fun _ => rfl) ⟨by decide, by decide⟩ rfl nofun
    exact ⟨hd, ⟨_, .nil, .nil⟩, nofun⟩
  | bool b =>
    have hd : Legible (.bool b) := by
      cases b with
      | true => exact legible_atom "true" (fun _ => rfl) ⟨by decide, by decide⟩ rfl nofun
      | false => exact legible_atom "false" (fun _ => rfl) ⟨by decide, by decide⟩ rfl nofun
    exact ⟨hd, hd.tail nofun nofun, nofun⟩
  | int short =>
    have hd := legible_int short
    exact ⟨hd, hd.tail nofun nofun, nofun⟩
  | str s =>
    have hd := legible_str s
    exact ⟨hd, hd.tail nofun nofun, nofun⟩
  | @sym s spelt =>
    obtain ⟨htext, hparse⟩ := spelt.name_spec
    have hd : Legible (.sym s) :=
      legible_atom s.name (fun _ => rfl) htext hparse fun h => ⟨s, rfl, h⟩
    exact ⟨hd, hd.tail nofun nofun, nofun⟩
  | cons first rest noDot noAt ih ih' =>
    refine ⟨legible_cons ih.1 ih'.2.1 ih'.2.2 noDot noAt, ?_, ?_⟩
    · obtain ⟨s, hprinted, hspells, -⟩ := ih.1
      obtain ⟨t, hprinted', hspells'⟩ := ih'.2.1
      exact ⟨_, .cons hprinted hprinted', .cons hspells noDot hspells' _⟩
    · rintro _ _ ⟨⟩
      exact ih.1
  | vector all ih =>
    obtain ⟨s, hprinted, hspells⟩ := legible_row fun d hd => (ih d hd).1
    have hd : Legible (.vector _) := ⟨_, hprinted.vector, hspells.vector, nofun⟩
    exact ⟨hd, hd.tail nofun nofun, nofun⟩
  | map keys values atoms distinct ih ih' =>
    have hd := legible_map (fun e he => (ih e he).1) (fun e he => (ih' e he).1) atoms distinct
    exact ⟨hd, hd.tail nofun nofun, nofun⟩

/-- The readable text of a printable datum reads as the datum, positions aside. -/
theorem Datum.Printable.readOne_text {d : Datum} (h : d.Printable) :
    ∃ d', readOne .unbounded (d.text true) = .ok d' ∧ d'.unplaced = d.unplaced := by
  obtain ⟨s, hprinted, hspells, -⟩ := h.legible.1
  obtain ⟨x, hx⟩ := hspells .start
  have htext : (d.text true).toList = s := by
    rw [Datum.text, hprinted]
    simp
  have hlex : lex (d.text true).toList = ⟨x.tokens, none⟩ := by
    have hscan := hx.cuts [] [] Lexer.delimited_nil
    rw [List.append_nil, List.append_nil] at hscan
    rw [htext, lex, hscan]
    simp [Lexer.scan, Lexer.finish]
  have hreads : Parser.Reads none x := Parser.form_complete hx.valid hx.decodable
  have hform := hreads (Parser.fuelFor x.tokens) [] (by rw [Parser.fuelFor]; omega)
  rw [List.append_nil] at hform
  refine ⟨x.datum, ?_, hx.denotes⟩
  simp only [readOne, hlex, hform]
  rfl

end TemplateLisp
