import TemplateLisp.Room
import TemplateLisp.Stop
import TemplateLisp.World.Key

/-!
# Equality

Two structural equalities. `equal` is the one of the language: numbers by value and never equal to a
truth value, texts by content, lists, vectors and maps by their elements, all other objects by
identity; a fixed sequence equals a vector with the same elements. `looselyEqual` is the one of the
host: truth values count as the numbers one and zero, and a fixed sequence never equals a vector.

Both answer at once for one and the same object where their rules say so; that shows only for
not-a-number, which equals nothing by value, and keeps cyclic data from being walked.
-/

namespace TemplateLisp.World

/-- Whether two lists agree in length and, pair by pair, under a test that may stop. -/
def allPairs (test : Value → Value → Except Stop Bool) :
    List Value → List Value → Except Stop Bool
  | [], [] => .ok true
  | x :: xs, y :: ys => do
    if ← test x y then allPairs test xs ys else return false
  | _, _ => .ok false

/-- Walks two chains of pairs side by side; `onCars` compares elements and `onTails` what is left
when one chain ends. With `shortcut`, chains that meet in one pair are equal from there on. -/
def spinesAgree (w : World) (shortcut : Bool) (onCars onTails : Value → Value → Except Stop Bool) :
    (fuel : Nat) → Value → Value → Except Stop Bool
  | 0, _, _ => .error .endless
  | n + 1, a, b =>
    match a, b with
    | .cell r, .cell s =>
      if shortcut && r = s then .ok true
      else do
        if ← onCars (w.cell r).car (w.cell s).car then
          spinesAgree w shortcut onCars onTails n (w.cell r).cdr (w.cell s).cdr
        else return false
    | a, b => onTails a b

/-- The number of steps after which two chains that have not ended never will. -/
def spineFuel (w : World) : Nat := w.cells.size * w.cells.size + 2

/-- Whether every key of one list of entries is a key of another. -/
def keysWithin (w : World) (es fs : List (Value × Value)) : Bool :=
  es.all fun (k, _) => (w.findKey? fs k).isSome

/-- Whether every entry has a partner with the same key whose value passes a test. -/
def entriesAgree (w : World) (test : Value → Value → Except Stop Bool)
    (fs : List (Value × Value)) : List (Value × Value) → Except Stop Bool
  | [] => .ok true
  | (k, v) :: es =>
    match w.findKey? fs k with
    | none => .ok false
    | some u => do
      if ← test v u then entriesAgree w test fs es else return false

/-! ## Equality of the language -/

/-- The elements of a vector or fixed sequence. -/
def sequence? (w : World) : Value → Option (List Value)
  | .vector r => some (w.vector r)
  | .tuple r => some (w.tuple r)
  | _ => none

/-- Equality of the language, through at most `levels` levels. -/
def equalAt (w : World) : (levels : Nat) → Value → Value → Except Stop Bool
  | 0, _, _ => .error .tooDeep
  | n + 1, a, b =>
    if a = b then .ok true
    else
      match a, b with
      | .bool _, _ => .ok false
      | _, .bool _ => .ok false
      | .num x, .num y => .ok (x.eqv y)
      | .cell _, .cell _ => w.spinesAgree false (equalAt w n) (equalAt w n) w.spineFuel a b
      | .map r, .map s =>
        let es := w.entries r
        let fs := w.entries s
        if es.length = fs.length && w.keysWithin es fs then w.entriesAgree (equalAt w n) fs es
        else .ok false
      | a, b =>
        match w.sequence? a, w.sequence? b with
        | some xs, some ys => if xs.length = ys.length then allPairs (equalAt w n) xs ys
          else .ok false
        | _, _ => .ok false

/-- Equality of the language. -/
def equal (w : World) (room : Room) (a b : Value) : Except Stop Bool :=
  w.equalAt (room.levels (w.containers + 2)) a b

/-! ## Equality of the host -/

/-- A test that lets one and the same object pass. -/
def sameOr (test : Value → Value → Except Stop Bool) (a b : Value) : Except Stop Bool :=
  if a = b then .ok true else test a b

/-- Equality of the host, through at most `levels` levels. -/
def looselyEqualAt (w : World) : (levels : Nat) → Value → Value → Except Stop Bool
  | 0, _, _ => .error .tooDeep
  | n + 1, a, b =>
    match a, b with
    | .cell _, .cell _ =>
      w.spinesAgree true (looselyEqualAt w n) (looselyEqualAt w n) w.spineFuel a b
    | .vector r, .vector s =>
      if (w.vector r).length = (w.vector s).length then
        allPairs (sameOr (looselyEqualAt w n)) (w.vector r) (w.vector s)
      else .ok false
    | .tuple r, .tuple s => allPairs (sameOr (looselyEqualAt w n)) (w.tuple r) (w.tuple s)
    | .map r, .map s =>
      let es := w.entries r
      let fs := w.entries s
      if es.length = fs.length then w.entriesAgree (sameOr (looselyEqualAt w n)) fs es
      else .ok false
    | a, b =>
      match a.numeric?, b.numeric? with
      | some x, some y => .ok (x.eqv y)
      | _, _ => .ok (a = b)

/-- Equality of the host. -/
def looselyEqual (w : World) (room : Room) (a b : Value) : Except Stop Bool :=
  w.looselyEqualAt (room.levels (w.containers + 2)) a b

/-! ## Keys that match -/

/-- Whether a key of a look-up matches a key that is there: equal, or a symbol and a text or another
symbol of the same bare name. -/
def keysMatch (w : World) (room : Room) (key candidate : Value) : Except Stop Bool := do
  if ← w.equal room key candidate then return true
  match key, candidate with
  | .sym s, .str t => return s.bareName = t
  | .str t, .sym s => return s.bareName = t
  | .sym s, .sym t => return s.bareName = t.bareName
  | _, _ => return false

/-- The first key of a list of entries that matches. -/
def matchingKey? (w : World) (room : Room) (key : Value) :
    List (Value × Value) → Except Stop (Option Value)
  | [] => .ok none
  | (k, _) :: rest => do
    if ← w.keysMatch room key k then return some k else matchingKey? w room key rest

/-- The value under a key: of the key itself, or else of the first one that matches. -/
def lookUp? (w : World) (room : Room) (entries : List (Value × Value)) (key : Value) :
    Except Stop (Option Value) :=
  match w.findKey? entries key with
  | some v => .ok (some v)
  | none => do
    match ← w.matchingKey? room key entries with
    | some k => return w.findKey? entries k
    | none => return none

end TemplateLisp.World
