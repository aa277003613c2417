import TemplateLisp.Symbol
import TemplateLisp.Number.Basic

/-!
# Data as trees

A `Datum` is a piece of program or data written out as a tree: what the reader makes of a source
text and what the printer turns into text. Objects that can be shared or changed do not live here
but in the heap of a `World`; loading a datum there and unfolding a value from there lead back and
forth.
-/

namespace TemplateLisp

/-- A text that no `String` holds: among its code points there are halves of surrogate pairs, which
are no characters. -/
structure WideText where
  codes : List Nat
  wide : codes.all (fun n => decide n.isValidChar) = false
deriving DecidableEq

/-- The text with the null character in the place of every half of a surrogate pair. -/
def WideText.narrow (s : WideText) : String := String.ofList (s.codes.map Char.ofNat)

/-- Program text or data as a tree. -/
inductive Datum where
  | nil
  /-- The null of the host, printed like `nil` and still another value. -/
  | null
  | bool (b : Bool)
  | num (n : Number)
  | str (s : String)
  /-- A text of a source, which only an escape can make wide. Loaded into the heap, it is narrow. -/
  | wide (s : WideText)
  | sym (s : Symbol)
  /-- A pair. `pos` is where the form that the pair heads starts in its source. -/
  | cons (pos : Option Pos) (car cdr : Datum)
  | vector (items : List Datum)
  /-- A fixed sequence of the host, printed like a vector. -/
  | tuple (items : List Datum)
  /-- Entries in the order in which their keys were first written. -/
  | map (entries : List (Datum × Datum))
  /-- Something that has no syntax of its own, by the text it is printed as and the text that
  messages show for it. -/
  | leaf (text shown : String)
deriving Inhabited

namespace Datum

/-- The text with the given code points. -/
def ofCodes (codes : List Nat) : Datum :=
  if h : codes.all (fun n => decide n.isValidChar) = true then
    .str (String.ofList (codes.map Char.ofNat))
  else .wide ⟨codes, eq_false_of_ne_true h⟩

/-- The code points of a `String` are those of a text that is not wide. -/
@[simp] theorem ofCodes_toNat (s : String) : ofCodes (s.toList.map Char.toNat) = .str s := by
  have hvalid : (s.toList.map Char.toNat).all (fun n => decide n.isValidChar) = true := by
    simp only [List.all_map, List.all_eq_true, Function.comp_apply, decide_eq_true_eq]
    exact fun c _ => c.valid
  rw [ofCodes, dif_pos hvalid, List.map_map]
  simp [Function.comp_def]

theorem ofCodes_codes (s : WideText) : ofCodes s.codes = .wide s := by
  rw [ofCodes, dif_neg]
  exact fun h => Bool.false_ne_true (s.wide.symm.trans h)

/-- A list that ends in `tail`; only its first pair carries the position. -/
def ofList (pos : Option Pos) (tail : Datum) : List Datum → Datum
  | [] => tail
  | d :: ds => .cons pos d (ofList none tail ds)

/-- Whether two data are one key of a map literal: numbers and booleans by value, with true as one
and false as zero, the other atoms by kind and content. -/
def sameKey : Datum → Datum → Bool
  | .num a, .num b => a.eqv b
  | .num a, .bool b => a.eqv (.int (if b then 1 else 0))
  | .bool a, .num b => b.eqv (.int (if a then 1 else 0))
  | .bool a, .bool b => a = b
  | .nil, .nil => true
  | .null, .null => true
  | .str a, .str b => a = b
  | .wide a, .wide b => a = b
  | .sym a, .sym b => a = b
  | _, _ => false

/-- Writes an entry: the first key of its kind stays, the last value wins. -/
def putEntry (key value : Datum) : List (Datum × Datum) → List (Datum × Datum)
  | [] => [(key, value)]
  | (k, v) :: rest => if sameKey k key then (k, value) :: rest
    else (k, v) :: putEntry key value rest

/-- Whether the datum may be a key of a map literal. -/
def isAtom : Datum → Bool
  | .cons .. => false
  | .vector _ => false
  | .tuple _ => false
  | .map _ => false
  | _ => true

@[simp] theorem isAtom_ofCodes (codes : List Nat) : (ofCodes codes).isAtom = true := by
  unfold ofCodes
  split <;> rfl

end Datum

end TemplateLisp
