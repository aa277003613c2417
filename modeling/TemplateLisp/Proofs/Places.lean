import Mathlib.Data.List.Induction
import TemplateLisp.Proofs.PrintedData
import TemplateLisp.Reader.Parser

/-!
# Places and moving them

`Pos.behind` counts the lines and columns of a text from one, and the place that a scan keeps is
this count (`Pos.start_past`). A part of a text that starts at `origin` has at `origin.within p`
what it has at `p` when it is read by itself.

`moved f` applies a function to every place in a token, a fault, a datum or a failure. Nothing of a
datum but its places changes, so its text in a message stays (`Datum.shown_moved`).
-/

namespace TemplateLisp

namespace Pos

/-! ## Lines and columns -/

/-- The place behind a text: one line more than it has line ends, and one column more than it has
characters behind the last of them. -/
def behind (s : List Char) : Pos :=
  ⟨s.count '\n' + 1, (s.reverse.takeWhile (· ≠ '\n')).length + 1⟩

/-- The place that is kept character by character is the count. -/
theorem start_past (s : List Char) : start.past s = behind s := by
  induction s using List.reverseRecOn with
  | nil => rfl
  | append_singleton s c ih =>
    rw [past_snoc, ih]
    by_cases hc : c = '\n'
    · simp [after, behind, hc]
    · simp [after, behind, hc]

/-- The place in a whole text of what stands at `p` in a part of it that starts at `origin`. -/
def within (origin p : Pos) : Pos :=
  if p.line = 1 then ⟨origin.line, origin.column + p.column - 1⟩
  else ⟨origin.line + p.line - 1, p.column⟩

/-- Lines and columns count from one, so nothing is lost in the differences. -/
theorem within_after (origin : Pos) {p : Pos} (hline : 1 ≤ p.line) (hcolumn : 1 ≤ p.column)
    (c : Char) : origin.within (p.after c) = (origin.within p).after c := by
  obtain ⟨l, k⟩ := p
  by_cases hc : c = '\n'
  · have hnext : ¬ l + 1 = 1 := by dsimp only at hline; omega
    by_cases hfirst : l = 1
    · simp [after, within, hc, hfirst]
    · simp only [after, within, hc, hnext, hfirst, if_true, if_false, Pos.mk.injEq, and_true]
      omega
  · by_cases hfirst : l = 1
    · simp only [after, within, hc, hfirst, if_true, if_false, Pos.mk.injEq, true_and]
      dsimp only at hcolumn
      omega
    · simp [after, within, hc, hfirst]

theorem within_past (origin : Pos) (s : List Char) :
    origin.within (start.past s) = origin.past s := by
  induction s using List.reverseRecOn with
  | nil => rfl
  | append_singleton s c ih =>
    have hplace := start_past s
    have hline : 1 ≤ (start.past s).line := by rw [hplace]; exact Nat.le_add_left 1 _
    have hcolumn : 1 ≤ (start.past s).column := by rw [hplace]; exact Nat.le_add_left 1 _
    rw [past_snoc, past_snoc, within_after origin hline hcolumn, ih]

/-- The place so many lines further down. -/
def down (n : Nat) (p : Pos) : Pos := ⟨p.line + n, p.column⟩

/-- A part that starts with a line is moved down as it is. -/
theorem within_lineStart (n : Nat) : within ⟨n + 1, 1⟩ = down n := by
  funext ⟨l, k⟩
  by_cases hfirst : l = 1
  · simp [within, down, hfirst, Nat.add_comm n 1]
  · simp only [within, down, hfirst, if_false, Pos.mk.injEq, and_true]
    omega

end Pos

/-! ## Moving places -/

/-- The token with its place moved. -/
def Token.moved (f : Pos → Pos) (t : Token) : Token := { t with pos := f t.pos }

/-- The fault with the place that it mentions moved. -/
def SyntaxFault.moved (f : Pos → Pos) : SyntaxFault → SyntaxFault
  | .mismatched closer opener opened => .mismatched closer opener (f opened)
  | s => s

/-- The failure with its places moved. -/
def ReadFailure.moved (f : Pos → Pos) : ReadFailure → ReadFailure
  | .fault s pos => .fault (s.moved f) (pos.map f)
  | e => e

/-- The end of a scan with the place of its fault moved. -/
def movedEnding (f : Pos → Pos) (ending : Option (SyntaxFault × Pos)) :
    Option (SyntaxFault × Pos) :=
  ending.map fun e => (e.1.moved f, f e.2)

namespace Datum

mutual
/-- The datum with its places moved. -/
def moved (f : Pos → Pos) : Datum → Datum
  | .cons pos car cdr => .cons (pos.map f) (moved f car) (moved f cdr)
  | .vector items => .vector (movedAll f items)
  | .tuple items => .tuple (movedAll f items)
  | .map entries => .map (movedEntries f entries)
  | d => d

/-- Data with their places moved. -/
def movedAll (f : Pos → Pos) : List Datum → List Datum
  | [] => []
  | d :: ds => moved f d :: movedAll f ds

/-- Entries with their places moved. -/
def movedEntries (f : Pos → Pos) : List (Datum × Datum) → List (Datum × Datum)
  | [] => []
  | e :: es => movedEntry f e :: movedEntries f es

/-- An entry with its places moved. -/
def movedEntry (f : Pos → Pos) : Datum × Datum → Datum × Datum
  | (k, v) => (moved f k, moved f v)
end

mutual
/-- Places that stay change nothing. -/
theorem moved_id (d : Datum) : d.moved id = d := by
  match d with
  | .cons pos car cdr => rw [moved, Option.map_id, moved_id car, moved_id cdr]; rfl
  | .vector items | .tuple items => rw [moved, movedAll_id items]
  | .map entries => rw [moved, movedEntries_id entries]
  | .nil | .null | .bool _ | .num _ | .str _ | .wide _ | .sym _ | .leaf _ _ => rfl

theorem movedAll_id (ds : List Datum) : movedAll id ds = ds := by
  match ds with
  | [] => rfl
  | d :: ds => rw [movedAll, moved_id d, movedAll_id ds]

theorem movedEntries_id (es : List (Datum × Datum)) : movedEntries id es = es := by
  match es with
  | [] => rfl
  | (k, v) :: es => rw [movedEntries, movedEntry, moved_id k, moved_id v, movedEntries_id es]
end

section
variable (f : Pos → Pos)

/-- `movedAll` in the natural form. -/
theorem movedAll_eq_map (ds : List Datum) : movedAll f ds = ds.map (moved f) := by
  induction ds with
  | nil => rfl
  | cons d ds ih => rw [movedAll, ih, List.map_cons]

theorem moved_of_isAtom {d : Datum} (h : d.isAtom = true) : d.moved f = d := by
  cases d <;> simp_all [moved, isAtom]

theorem isAtom_moved (d : Datum) : (d.moved f).isAtom = d.isAtom := by
  cases d <;> simp [moved, isAtom]

theorem moved_ofList (pos : Option Pos) (tail : Datum) (ds : List Datum) :
    (ofList pos tail ds).moved f = ofList (pos.map f) (tail.moved f) (ds.map (moved f)) := by
  induction ds generalizing pos with
  | nil => rfl
  | cons d ds ih => rw [ofList, moved, ih, List.map_cons, ofList, Option.map_none]

/-- Places play no part in telling keys apart. -/
theorem sameKey_moved (a b : Datum) : sameKey (a.moved f) (b.moved f) = sameKey a b := by
  cases a <;> cases b <;> rfl

theorem putEntry_moved (k v : Datum) (es : List (Datum × Datum)) :
    putEntry (k.moved f) (v.moved f) (movedEntries f es) = movedEntries f (putEntry k v es) := by
  induction es with
  | nil => rfl
  | cons e es ih =>
    obtain ⟨k', v'⟩ := e
    rw [movedEntries, movedEntry, putEntry, putEntry, sameKey_moved, ih]
    split <;> rfl

mutual
/-- Moving changes nothing but places. -/
theorem unplaced_moved (d : Datum) : (d.moved f).unplaced = d.unplaced := by
  match d with
  | .cons pos car cdr => rw [moved, unplaced, unplaced, unplaced_moved car, unplaced_moved cdr]
  | .vector items | .tuple items => rw [moved, unplaced, unplaced, unplacedAll_movedAll items]
  | .map entries => rw [moved, unplaced, unplaced, unplacedEntries_movedEntries entries]
  | .nil | .null | .bool _ | .num _ | .str _ | .wide _ | .sym _ | .leaf _ _ => rfl

theorem unplacedAll_movedAll (ds : List Datum) : unplacedAll (movedAll f ds) = unplacedAll ds := by
  match ds with
  | [] => rfl
  | d :: ds => rw [movedAll, unplacedAll, unplacedAll, unplaced_moved d, unplacedAll_movedAll ds]

theorem unplacedEntries_movedEntries (es : List (Datum × Datum)) :
    unplacedEntries (movedEntries f es) = unplacedEntries es := by
  match es with
  | [] => rfl
  | (k, v) :: es =>
    rw [movedEntries, movedEntry, unplacedEntries, unplacedEntries, unplacedEntry, unplacedEntry,
      unplaced_moved k, unplaced_moved v, unplacedEntries_movedEntries es]
end

end

/-! ## Texts show no places -/

/-- The halves of a two-element list headed by a symbol, which may be printed with a mark. -/
def IsQuoting (car cdr : Datum) : Prop := ∃ s pos d, car = .sym s ∧ cdr = .cons pos d .nil

theorem isQuoting_unplaced {car cdr : Datum} (h : IsQuoting car.unplaced cdr.unplaced) :
    IsQuoting car cdr := by
  obtain ⟨s, pos, d, hcar, hcdr⟩ := h
  cases car with
  | sym t =>
    cases cdr with
    | cons pos' d' rest =>
      cases rest with
      | nil => exact ⟨t, pos', d', rfl, rfl⟩
      | _ => simp [unplaced] at hcdr
    | _ => simp [unplaced] at hcdr
  | _ => simp [unplaced] at hcar

theorem write_of_not_isQuoting {car cdr : Datum} (h : ¬ IsQuoting car cdr) (pos : Option Pos)
    (out : String) :
    write true out (.cons pos car cdr) = writeTail true (write true (out ++ "(") car) cdr := by
  rw [write]
  exact fun s pos' d hcar hcdr => h ⟨s, pos', d, hcar, hcdr⟩

mutual
theorem write_unplaced (out : String) (d : Datum) : write true out d.unplaced =
    write true out d := by
  match d with
  | .cons pos car cdr =>
    by_cases hquoting : IsQuoting car cdr
    · obtain ⟨s, pos', x, rfl, rfl⟩ := hquoting
      simp only [unplaced, write, write_unplaced _ x]
    · have hquoting' : ¬ IsQuoting car.unplaced cdr.unplaced := fun h =>
        hquoting (isQuoting_unplaced h)
      rw [unplaced, write_of_not_isQuoting hquoting', write_of_not_isQuoting hquoting,
        write_unplaced _ car, writeTail_unplaced _ cdr]
  | .vector items | .tuple items => rw [unplaced, write, write, writeItems_unplaced _ items]
  | .map entries => rw [unplaced, write, write, writeEntries_unplaced _ entries]
  | .nil | .null | .bool _ | .num _ | .str _ | .wide _ | .sym _ | .leaf _ _ => rfl
termination_by (sizeOf d, 0)

theorem writeTail_unplaced (out : String) (d : Datum) :
    writeTail true out d.unplaced = writeTail true out d := by
  match d with
  | .cons pos car cdr =>
    rw [unplaced, writeTail, writeTail, write_unplaced _ car, writeTail_unplaced _ cdr]
  | .vector items | .tuple items => rw [unplaced, writeTail, writeTail, writeItems_unplaced _ items]
  | .map entries => rw [unplaced, writeTail, writeTail, writeEntries_unplaced _ entries]
  | .nil | .null | .bool _ | .num _ | .str _ | .wide _ | .sym _ | .leaf _ _ => rfl
termination_by (sizeOf d, 0)

theorem writeItems_unplaced (out : String) (ds : List Datum) :
    writeItems true out (unplacedAll ds) = writeItems true out ds := by
  match ds with
  | [] => rfl
  | [d] => exact write_unplaced out d
  | d :: d' :: ds =>
    show writeItems true (write true out d.unplaced ++ " ") (unplacedAll (d' :: ds)) =
      writeItems true (write true out d ++ " ") (d' :: ds)
    rw [write_unplaced _ d, writeItems_unplaced _ (d' :: ds)]
termination_by (sizeOf ds, 0)

theorem writeEntries_unplaced (out : String) (es : List (Datum × Datum)) :
    writeEntries true out (unplacedEntries es) = writeEntries true out es := by
  match es with
  | [] => rfl
  | [(k, v)] =>
    show write true (write true out k.unplaced ++ " ") v.unplaced =
      write true (write true out k ++ " ") v
    rw [write_unplaced _ k, write_unplaced _ v]
  | (k, v) :: e' :: es =>
    show writeEntries true (write true (write true out k.unplaced ++ " ") v.unplaced ++ " ")
        (unplacedEntries (e' :: es)) =
      writeEntries true (write true (write true out k ++ " ") v ++ " ") (e' :: es)
    rw [write_unplaced _ k, write_unplaced _ v, writeEntries_unplaced _ (e' :: es)]
termination_by (sizeOf es, 0)
end

mutual
theorem writeShown_unplaced (out : String) (d : Datum) :
    writeShown out d.unplaced = writeShown out d := by
  match d with
  | .cons pos car cdr => exact write_unplaced out (.cons pos car cdr)
  | .vector items => rw [unplaced, writeShown, writeShown, writeShownItems_unplaced _ items]
  | .tuple [] => rfl
  | .tuple [x] =>
    show writeShown (out ++ "(") x.unplaced ++ ",)" = writeShown (out ++ "(") x ++ ",)"
    rw [writeShown_unplaced _ x]
  | .tuple (x :: y :: items) =>
    show writeShownItems (out ++ "(") (unplacedAll (x :: y :: items)) ++ ")" =
      writeShownItems (out ++ "(") (x :: y :: items) ++ ")"
    rw [writeShownItems_unplaced _ (x :: y :: items)]
  | .map entries => rw [unplaced, writeShown, writeShown, writeShownEntries_unplaced _ entries]
  | .nil | .null | .bool _ | .num _ | .str _ | .wide _ | .sym _ | .leaf _ _ => rfl
termination_by (sizeOf d, 0)

theorem writeShownItems_unplaced (out : String) (ds : List Datum) :
    writeShownItems out (unplacedAll ds) = writeShownItems out ds := by
  match ds with
  | [] => rfl
  | [d] => exact writeShown_unplaced out d
  | d :: d' :: ds =>
    show writeShownItems (writeShown out d.unplaced ++ ", ") (unplacedAll (d' :: ds)) =
      writeShownItems (writeShown out d ++ ", ") (d' :: ds)
    rw [writeShown_unplaced _ d, writeShownItems_unplaced _ (d' :: ds)]
termination_by (sizeOf ds, 0)

theorem writeShownEntries_unplaced (out : String) (es : List (Datum × Datum)) :
    writeShownEntries out (unplacedEntries es) = writeShownEntries out es := by
  match es with
  | [] => rfl
  | [(k, v)] =>
    show writeShown (writeShown out k.unplaced ++ ": ") v.unplaced =
      writeShown (writeShown out k ++ ": ") v
    rw [writeShown_unplaced _ k, writeShown_unplaced _ v]
  | (k, v) :: e' :: es =>
    show writeShownEntries (writeShown (writeShown out k.unplaced ++ ": ") v.unplaced ++ ", ")
        (unplacedEntries (e' :: es)) =
      writeShownEntries (writeShown (writeShown out k ++ ": ") v ++ ", ") (e' :: es)
    rw [writeShown_unplaced _ k, writeShown_unplaced _ v, writeShownEntries_unplaced _ (e' :: es)]
termination_by (sizeOf es, 0)
end

/-- A message shows a datum without its places. -/
theorem shown_moved (f : Pos → Pos) (d : Datum) : (d.moved f).shown = d.shown := by
  rw [shown, shown, ← writeShown_unplaced "" (d.moved f), unplaced_moved, writeShown_unplaced]

end Datum

end TemplateLisp
