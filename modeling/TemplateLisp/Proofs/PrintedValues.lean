import TemplateLisp.Proofs.PlainValues

/-!
# Printed values read back

`World.printed_value_reads_back`: the readable text of a plain value reads as a tree of the
structure of the value, unless the value holds a list that the printer spells as another one. Each
of the two exceptions is shown to be needed by a value that the other does not exclude.
-/

namespace TemplateLisp.World

variable {w : World}

/-! ## Structure and positions -/

theorem getElem?_of_map_eq {α β : Type} {f : α → β} {l l' : List α} (h : l.map f = l'.map f)
    {i : Nat} {a' : α} (ha' : l'[i]? = some a') : ∃ a, l[i]? = some a ∧ f a = f a' := by
  have hi := congrArg (·[i]?) h
  simp only [List.getElem?_map, ha', Option.map_some, Option.map_eq_some_iff] at hi
  exact hi

/-- An element of one list has one of the other list beside it, if the two are equally long. -/
theorem exists_beside {α β : Type} {l : List α} {l' : List β} (h : l'.length = l.length) {b : β}
    (hb : b ∈ l') : ∃ (i : Nat) (a : α), l[i]? = some a ∧ l'[i]? = some b := by
  obtain ⟨i, hi, rfl⟩ := List.mem_iff_getElem.1 hb
  exact ⟨i, l[i], List.getElem?_eq_getElem (by omega), List.getElem?_eq_getElem hi⟩

/-- The positions of the tree do not matter. -/
theorem Depicts.of_unplaced {v : Value} {d d' : Datum} (h : w.Depicts v d)
    (heq : d.unplaced = d'.unplaced) : w.Depicts v d' := by
  induction h generalizing d' with
  | nil => cases d' <;> simp [Datum.unplaced] at heq; exact .nil
  | bool b => cases d' <;> simp [Datum.unplaced] at heq; exact heq ▸ .bool b
  | num n => cases d' <;> simp [Datum.unplaced] at heq; exact heq ▸ .num n
  | str s => cases d' <;> simp [Datum.unplaced] at heq; exact heq ▸ .str s
  | sym s => cases d' <;> simp [Datum.unplaced] at heq; exact heq ▸ .sym s
  | cell first rest ihFirst ihRest =>
    cases d' <;> simp [Datum.unplaced] at heq
    exact .cell (ihFirst heq.1) (ihRest heq.2)
  | vector length all ih =>
    cases d' <;> simp only [Datum.unplaced, reduceCtorEq, Datum.vector.injEq,
      Datum.unplacedAll_eq_map] at heq
    refine .vector ?_ fun i v d' hv hd' => ?_
    · rw [← length, ← List.length_map, ← heq, List.length_map]
    · obtain ⟨d, hd, heq'⟩ := getElem?_of_map_eq heq hd'
      exact ih i v d hv hd heq'
  | map length keys values ihKeys ihValues =>
    cases d' <;> simp only [Datum.unplaced, reduceCtorEq, Datum.map.injEq,
      Datum.unplacedEntries_eq_map] at heq
    refine .map ?_ (fun i e f' he hf' => ?_) fun i e f' he hf' => ?_
    · rw [← length, ← List.length_map, ← heq, List.length_map]
    · obtain ⟨f, hf, heq'⟩ := getElem?_of_map_eq heq hf'
      exact ihKeys i e f he hf (Prod.mk.inj heq').1
    · obtain ⟨f, hf, heq'⟩ := getElem?_of_map_eq heq hf'
      exact ihValues i e f he hf (Prod.mk.inj heq').2

/-! ## Values that can be printed -/

variable (w) in
/-- No pair in the value has the symbol of the dot as its first half. -/
def NoDotFirst (v : Value) : Prop := ∀ r, w.Contains v (.cell r) → (w.cell r).car ≠ .sym ⟨"."⟩

variable (w) in
/-- No list in the value unquotes a symbol whose name starts with an at sign. -/
def NoAtUnquoted (v : Value) : Prop :=
  ∀ r r' s, w.Contains v (.cell r) → (w.cell r).car = .sym ⟨"unquote"⟩ → (w.cell r).cdr = .cell r' →
    (w.cell r').car = .sym s → (w.cell r').cdr = .nil → s.name.toList.head? ≠ some '@'

theorem NoDotFirst.of_holds {v x : Value} (h : w.NoDotFirst v) (hx : w.Holds v x) :
    w.NoDotFirst x := fun r hr => h r (.head hx hr)

theorem NoAtUnquoted.of_holds {v x : Value} (h : w.NoAtUnquoted v) (hx : w.Holds v x) :
    w.NoAtUnquoted x := fun r r' s hr => h r r' s (.head hx hr)

theorem Depicts.eq_sym {v : Value} {s : Symbol} (h : w.Depicts v (.sym s)) : v = .sym s := by
  cases h
  rfl

theorem Depicts.eq_nil {v : Value} (h : w.Depicts v .nil) : v = .nil := by
  cases h
  rfl

theorem Depicts.isAtom {v : Value} {d : Datum} (h : w.Depicts v d) (hv : isAtomic v = true) :
    d.isAtom = true := by
  cases h <;> first | rfl | cases hv

/-- Data that are one key of a map literal depict values that are one key of a map. -/
theorem sameKey_of_depicts {a b : Value} {k k' : Datum} (hb : w.Plain b) (hk : w.Depicts a k)
    (hk' : w.Depicts b k') (h : Datum.sameKey k k' = true) : w.sameKey a b = true := by
  rw [World.sameKey]
  unfold World.sameKeyAt
  unfold Datum.sameKey at h
  split at h
  · cases hk
    cases hk'
    simp [Value.numeric?, h]
  · cases hk
    cases hk'
    simp [Value.numeric?, h]
  · cases hk
    cases hk'
    cases hb
    simp_all [Value.numeric?, Number.eqv]
  · cases hk
    cases hk'
    simp_all
  · cases hk
    cases hk'
    simp
  · cases hk
  · cases hk
    cases hk'
    simp_all
  · cases hk
  · cases hk
    cases hk'
    simp_all
  · cases h

/-- The keys of the tree of a plain map are distinct. -/
theorem pairwise_of_depicts {r : MapRef} (h : w.Plain (.map r)) {entries : List (Datum × Datum)}
    (length : entries.length = (w.entries r).length)
    (keys : ∀ (i : Nat) e f, (w.entries r)[i]? = some e → entries[i]? = some f →
      w.Depicts e.1 f.1) :
    entries.Pairwise fun e f => Datum.sameKey e.1 f.1 = false := by
  cases h with
  | map plain _ _ distinct =>
    rw [List.pairwise_iff_getElem] at distinct ⊢
    intro i j hi hj hij
    have hi' : i < (w.entries r).length := by omega
    have hj' : j < (w.entries r).length := by omega
    have hkey := keys i _ _ (List.getElem?_eq_getElem hi') (List.getElem?_eq_getElem hi)
    have hkey' := keys j _ _ (List.getElem?_eq_getElem hj') (List.getElem?_eq_getElem hj)
    have hplain := plain _ (List.getElem_mem hj')
    cases hsame : Datum.sameKey entries[i].1 entries[j].1 with
    | false => rfl
    | true =>
      have hfound := sameKey_of_depicts hplain hkey hkey' hsame
      rw [distinct i j hi' hj' hij] at hfound
      cases hfound

/-- The tree of a plain value without the exceptions is printable. -/
theorem Depicts.printable {v : Value} {d : Datum} (h : w.Depicts v d) (hplain : w.Plain v)
    (hdot : w.NoDotFirst v) (hat : w.NoAtUnquoted v) : d.Printable := by
  induction h with
  | nil => exact .nil
  | bool b => exact .bool b
  | num n => cases hplain with | int short => exact .int short
  | str s => exact .str s
  | sym s => cases hplain with | sym spelt => exact .sym spelt
  | @cell r pos car cdr first rest ihFirst ihRest =>
    have hcar : w.Holds (.cell r) (w.cell r).car := .car r
    have hcdr : w.Holds (.cell r) (w.cell r).cdr := .cdr r
    refine .cons (ihFirst (hplain.of_holds hcar) (hdot.of_holds hcar) (hat.of_holds hcar))
      (ihRest (hplain.of_holds hcdr) (hdot.of_holds hcdr) (hat.of_holds hcdr)) ?_ ?_
    · rintro rfl
      exact hdot r .refl first.eq_sym
    · rintro pos' s rfl rfl
      generalize hrest : (w.cell r).cdr = x at rest
      cases rest with
      | cell operand last => exact hat r _ s .refl first.eq_sym hrest operand.eq_sym last.eq_nil
  | @vector r items length all ih =>
    refine .vector fun d hd => ?_
    obtain ⟨i, v, hv, hi⟩ := exists_beside length hd
    have hx : w.Holds (.vector r) v := .item (List.mem_of_getElem? hv)
    exact ih i v d hv hi (hplain.of_holds hx) (hdot.of_holds hx) (hat.of_holds hx)
  | @map r entries length keys values ihKeys ihValues =>
    have hmap := hplain
    cases hmap with
    | map _ _ atoms distinct =>
    refine .map (fun f hf => ?_) (fun f hf => ?_) (fun f hf => ?_) ?_
    · obtain ⟨i, e, he, hi⟩ := exists_beside length hf
      have hx : w.Holds (.map r) e.1 := .key (List.mem_of_getElem? he)
      exact ihKeys i e f he hi (hplain.of_holds hx) (hdot.of_holds hx) (hat.of_holds hx)
    · obtain ⟨i, e, he, hi⟩ := exists_beside length hf
      have hx : w.Holds (.map r) e.2 := .value (List.mem_of_getElem? he)
      exact ihValues i e f he hi (hplain.of_holds hx) (hdot.of_holds hx) (hat.of_holds hx)
    · obtain ⟨i, e, he, hi⟩ := exists_beside length hf
      exact (keys i e f he hi).isAtom (atoms e (List.mem_of_getElem? he))
    · exact pairwise_of_depicts hplain length keys

/-! ## Reading back -/

/-- What is printed for a value reads as a tree of the structure of the value. -/
def ReadsBack (w : World) (v : Value) : Prop :=
  ∃ text d, w.readableText .unbounded v = .ok text ∧ readOne .unbounded text = .ok d ∧ w.Depicts v d

theorem Plain.readsBack {v : Value} (h : w.Plain v) (hdot : w.NoDotFirst v)
    (hat : w.NoAtUnquoted v) : w.ReadsBack v := by
  obtain ⟨d, hunfold, hdepicts⟩ := h.unfold
  obtain ⟨d', hread, hunplaced⟩ := (hdepicts.printable h hdot hat).readOne_text
  refine ⟨d.text true, d', ?_, hread, hdepicts.of_unplaced hunplaced.symm⟩
  rw [readableText, hunfold]
  rfl

/-- A list of the symbol of the dot and nothing else. -/
def dotList : World := { World.empty with cells := #[⟨.sym ⟨"."⟩, .nil, none⟩] }

/-- A list that unquotes a symbol whose name starts with an at sign. -/
def atUnquoted : World :=
  { World.empty with
    cells := #[⟨.sym ⟨"unquote"⟩, .cell ⟨1⟩, none⟩, ⟨.sym ⟨"@a"⟩, .nil, none⟩] }

/-- The printed text `(.)` cannot be read. -/
theorem not_readsBack_dotList : ¬ dotList.ReadsBack (.cell ⟨0⟩) := by
  rintro ⟨text, d, htext, hread, -⟩
  cases (show Except.ok "(.)" = _ from htext)
  cases hread

/-- The printed text `,@a` is read as a splicing. -/
theorem not_readsBack_atUnquoted : ¬ atUnquoted.ReadsBack (.cell ⟨0⟩) := by
  rintro ⟨text, d, htext, hread, hdepicts⟩
  cases (show Except.ok ",@a" = _ from htext)
  cases hread
  cases hdepicts with
  | cell first _ => exact absurd first.eq_sym (by decide)

theorem plain_dotList : dotList.Plain (.cell ⟨0⟩) :=
  .cell (.sym ⟨_, rfl, rfl, rfl⟩) .nil

theorem plain_atUnquoted : atUnquoted.Plain (.cell ⟨0⟩) :=
  .cell (.sym ⟨_, rfl, rfl, rfl⟩) (.cell (.sym ⟨_, rfl, rfl, rfl⟩) .nil)

/-- Printed values read back. A plain value without the two exceptions is printed as a text that
reads as a tree of its structure, and neither exception can be left out: for each there is a plain
value that only it excludes and that does not read back. -/
theorem printed_value_reads_back (w : World) (v : Value) (hplain : w.Plain v)
    (hdot : w.NoDotFirst v) (hat : w.NoAtUnquoted v) :
    w.ReadsBack v ∧
    (∃ w' v', Plain w' v' ∧ ¬ w'.NoDotFirst v' ∧ w'.NoAtUnquoted v' ∧ ¬ w'.ReadsBack v') ∧
    ∃ w' v', Plain w' v' ∧ w'.NoDotFirst v' ∧ ¬ w'.NoAtUnquoted v' ∧ ¬ w'.ReadsBack v' := by
  refine ⟨hplain.readsBack hdot hat,
    ⟨dotList, .cell ⟨0⟩, plain_dotList, ?_, ?_, not_readsBack_dotList⟩,
    ⟨atUnquoted, .cell ⟨0⟩, plain_atUnquoted, ?_, ?_, not_readsBack_atUnquoted⟩⟩
  · exact fun h => h ⟨0⟩ .refl rfl
  · rintro ⟨_ | i⟩ r' s - hcar
    · exact absurd hcar (by decide)
    · cases hcar
  · rintro ⟨_ | _ | i⟩ - hcar
    · exact absurd hcar (by decide)
    · exact absurd hcar (by decide)
    · cases hcar
  · exact fun h => h ⟨0⟩ ⟨1⟩ ⟨"@a"⟩ .refl rfl rfl rfl rfl rfl

/-- A vector of a dotted pair, a map and a quoted list. -/
def nestedValue : World :=
  { World.empty with
    cells := #[⟨.sym ⟨"a"⟩, .str "q\"\n", none⟩, ⟨.sym ⟨"quote"⟩, .cell ⟨2⟩, none⟩,
      ⟨.cell ⟨3⟩, .nil, none⟩, ⟨.sym ⟨"b"⟩, .nil, none⟩]
    vectors := #[[.cell ⟨0⟩, .map (.own 0), .cell ⟨1⟩]]
    maps := #[[(.sym ⟨":k"⟩, .int (-12)), (.str "s", .nil)]] }

theorem plain_nestedValue : nestedValue.Plain (.vector ⟨0⟩) := by
  have hshort : (-12 : Int).natAbs < Number.digitBound := (lt_digitBound_iff 12).2 (by decide)
  have hpair : nestedValue.Plain (.cell ⟨0⟩) := .cell (.sym ⟨_, rfl, rfl, rfl⟩) (.str _)
  have hquoted : nestedValue.Plain (.cell ⟨1⟩) :=
    .cell (.sym ⟨_, rfl, rfl, rfl⟩) (.cell (.cell (.sym ⟨_, rfl, rfl, rfl⟩) .nil) .nil)
  have hmap : nestedValue.Plain (.map (.own 0)) := by
    refine .map ?_ ?_ ?_ ?_
    · rintro e (_ | ⟨_, _ | ⟨_, ⟨⟩⟩⟩)
      · exact .sym ⟨_, rfl, rfl, rfl⟩
      · exact .str "s"
    · rintro e (_ | ⟨_, _ | ⟨_, ⟨⟩⟩⟩)
      · exact .int hshort
      · exact .nil
    · decide
    · decide
  refine .vector ?_
  rintro v (_ | ⟨_, _ | ⟨_, _ | ⟨_, ⟨⟩⟩⟩⟩)
  · exact hpair
  · exact hmap
  · exact hquoted

/-- The nested value meets the conditions and reads back. -/
theorem printed_value_reads_back_nested :
    nestedValue.Plain (.vector ⟨0⟩) ∧ nestedValue.NoDotFirst (.vector ⟨0⟩) ∧
    nestedValue.NoAtUnquoted (.vector ⟨0⟩) ∧ nestedValue.ReadsBack (.vector ⟨0⟩) := by
  have hdot : nestedValue.NoDotFirst (.vector ⟨0⟩) := by
    rintro ⟨_ | _ | _ | _ | i⟩ - hcar
    · exact absurd hcar (by decide)
    · exact absurd hcar (by decide)
    · cases hcar
    · exact absurd hcar (by decide)
    · cases hcar
  have hat : nestedValue.NoAtUnquoted (.vector ⟨0⟩) := by
    rintro ⟨_ | _ | _ | _ | i⟩ r' s - hcar
    · exact absurd hcar (by decide)
    · exact absurd hcar (by decide)
    · cases hcar
    · exact absurd hcar (by decide)
    · cases hcar
  exact ⟨plain_nestedValue, hdot, hat,
    (printed_value_reads_back nestedValue (.vector ⟨0⟩) plain_nestedValue hdot hat).1⟩

end TemplateLisp.World
