import TemplateLisp.Datum.Shown
import TemplateLisp.Room
import TemplateLisp.Stop
import TemplateLisp.World.Scope
import TemplateLisp.World.Spine

/-!
# Values and their text

`World.unfold` writes a value out as a tree and `World.load` puts a tree into the heap. The text of
a value is the text of its tree.

Data can be cyclic once pairs and maps have been changed, and through environments. Going round such
a cycle exhausts the room. In messages, a container that is met again inside itself is shown as
three dots instead; inside a list, which is shown in its own syntax, that does not hold.

An environment is printed as its innermost frame, with a sign that there are more around it.
Messages show all its frames up to the root, of which only the size is given. Either way the values
in a frame stand as messages show them.
-/

namespace TemplateLisp.World

/-- The text of a closure: its name, if it has one, and its parameters. -/
def closureText (c : Closure) : String :=
  let name := match c.name with
    | none => ""
    | some n => if n = "" then "" else ":" ++ n
  "(fn" ++ name ++ " (" ++ " ".intercalate (c.formals.names.map (·.name)) ++ "))"

/-- A number in a fixed number of digits, with zeros in front. -/
def padded (width n : Nat) : String :=
  let digits := toString n
  String.ofList (List.replicate (width - digits.length) '0') ++ digits

/-- A date as year, month and day. -/
def dateText (d : Date) : String :=
  padded 4 d.year ++ "-" ++ padded 2 d.month ++ "-" ++ padded 2 d.day

/-- A date as messages show it. -/
def dateShown (d : Date) : String :=
  "datetime.date(" ++ toString d.year ++ ", " ++ toString d.month ++ ", " ++ toString d.day ++ ")"

/-- A leaf that is printed and shown alike. -/
def plainLeaf (text : String) : Datum := .leaf text text

/-- The tree of a value that refers to no others, unless its text would be too long. -/
def unfoldAtom (w : World) : Value → Except Stop Datum
  | .nil => .ok .nil
  | .null => .ok .null
  | .bool b => .ok (.bool b)
  | .num (.int n) =>
    if n.natAbs < Number.digitBound then .ok (.num (.int n))
      else .error (.crash .integerTextTooLong)
  | .num n => .ok (.num n)
  | .str s => .ok (.str s)
  | .sym s => .ok (.sym s)
  | .closure r => .ok (plainLeaf (closureText (w.closure r)))
  | .builtin b => .ok (plainLeaf ("<function " ++ b.hostName ++ ">"))
  | .hostFunction _ name => .ok (plainLeaf ("<function " ++ name ++ ">"))
  | .date d => .ok (.leaf (dateText d) (dateShown d))
  | .bytes bs => .ok (plainLeaf (Text.quotedBytes bs))
  | .object r => .ok (plainLeaf ("<" ++ (w.object r).kind.name ++ ">"))
  | .generator _ => .ok (plainLeaf "<generator>")
  | .formals _ => .ok (plainLeaf "<LambdaList>")
  | _ => .ok .nil

/-- Whether a container is being shown already; nothing is while no message is being made. -/
def isOpen (guard : Option (List Value)) (v : Value) : Bool :=
  match guard with
  | some outer => outer.contains v
  | none => false

/-- How a value is unfolded whose bare text a message wants: an environment is printed as it is
elsewhere. -/
def bareGuard : Value → Option (List Value)
  | .env _ => none
  | _ => some []

/-- Unfolds a value through at most `levels` levels. With `guard`, for a message: the containers
that are being shown. -/
def unfoldAt (w : World) (guard : Option (List Value)) : (levels : Nat) → Value → Except Stop Datum
  | 0, _ => .error .tooDeep
  | n + 1, v =>
    let inside := guard.map (v :: ·)
    match v with
    | .cell _ =>
      match w.spine? v with
      | none => .error .endless
      | some (cells, tail) => do
        let items ← cells.mapM fun c => do return (c.pos, ← unfoldAt w none n c.car)
        let last ← unfoldAt w none n tail
        return items.foldr (fun (pos, d) rest => .cons pos d rest) last
    | .vector r =>
      if isOpen guard v then .ok (plainLeaf "[...]")
      else do return .vector (← (w.vector r).mapM (unfoldAt w inside n))
    | .tuple r =>
      if isOpen guard v then .ok (plainLeaf "(...)")
      else do return .tuple (← (w.tuple r).mapM (unfoldAt w inside n))
    | .map r =>
      if isOpen guard v then .ok (plainLeaf "\x7b...\x7d")
      else do
        return .map (← (w.entries r).mapM fun (k, x) => do
          return (← unfoldAt w inside n k, ← unfoldAt w inside n x))
    | .env r => do
      let frameText (f : Frame) : Except Stop String := do
        let parts ← f.vars.mapM fun (k, x) => do
          let name := (← unfoldAt w (bareGuard k) n k).plain
          return name ++ ": " ++ (← unfoldAt w (some (guard.getD [])) n x).shown
        return "\x7b" ++ ", ".intercalate parts ++ "\x7d"
      match guard with
      | none =>
        let text ← frameText (w.frame r)
        return plainLeaf (if (w.frame r).outer.isSome then text ++ " -> ..." else text)
      | some _ =>
        let parts ← (w.chain r).mapM fun s =>
          match (w.frame s).outer with
          | none => .ok ("<root: " ++ toString (w.frame s).vars.length ++ " bindings>")
          | some _ => frameText (w.frame s)
        return plainLeaf ("<Environment chain: " ++ " -> ".intercalate parts ++ ">")
    | v => w.unfoldAtom v
termination_by structural levels => levels

/-- How many levels a walk into data takes. -/
def levelsIn (w : World) (room : Room) : Nat := room.levels (w.containers + 2)

/-- The value as a tree. -/
def unfold (w : World) (room : Room) (v : Value) : Except Stop Datum :=
  w.unfoldAt none (w.levelsIn room) v

/-- The readable text of a value. -/
def readableText (w : World) (room : Room) (v : Value) : Except Stop String :=
  (w.unfold room v).map (·.text true)

/-- The text of a value for display. -/
def displayText (w : World) (room : Room) (v : Value) : Except Stop String :=
  (w.unfold room v).map (·.text false)

/-- A value as messages show it. -/
def shown (w : World) (room : Room) (v : Value) : Except Stop String :=
  (w.unfoldAt (some []) (w.levelsIn room) v).map (·.shown)

/-- A value as it stands bare in a message. -/
def plain (w : World) (room : Room) (v : Value) : Except Stop String :=
  (w.unfoldAt (bareGuard v) (w.levelsIn room) v).map (·.plain)

/-! ## Loading -/

/-- Adds the pairs of a list from its last element to its first, each with its position. -/
def closeList (w : World) (found : List (Option Pos × Value)) (tail : Value) : Value × World :=
  found.foldl
    (fun (v, w) (pos, item) => let (r, w) := w.addCell ⟨item, v, pos⟩; (.cell r, w)) (tail, w)

mutual
/-- Puts a tree into the heap. -/
def load (w : World) : Datum → Value × World
  | .nil => (.nil, w)
  | .null => (.null, w)
  | .bool b => (.bool b, w)
  | .num n => (.num n, w)
  | .str s => (.str s, w)
  | .wide s => (.str s.narrow, w)
  | .sym s => (.sym s, w)
  | .leaf text _ => (.str text, w)
  | .cons pos car cdr =>
    let (first, w) := load w car
    loadTail w [(pos, first)] cdr
  | .vector items =>
    let (vs, w) := loadItems w [] items
    let (r, w) := w.addVector vs
    (.vector r, w)
  | .tuple items =>
    let (vs, w) := loadItems w [] items
    let (r, w) := w.addTuple vs
    (.tuple r, w)
  | .map entries =>
    let (es, w) := loadEntries w [] entries
    let (r, w) := w.addMap es
    (.map r, w)
termination_by structural d => d

/-- Loads the rest of a list; `found` holds the elements before it, last one first. -/
def loadTail (w : World) (found : List (Option Pos × Value)) : Datum → Value × World
  | .cons pos car cdr =>
    let (v, w) := load w car
    loadTail w ((pos, v) :: found) cdr
  | .nil => closeList w found .nil
  | .null => closeList w found .null
  | .bool b => closeList w found (.bool b)
  | .num n => closeList w found (.num n)
  | .str s => closeList w found (.str s)
  | .wide s => closeList w found (.str s.narrow)
  | .sym s => closeList w found (.sym s)
  | .leaf text _ => closeList w found (.str text)
  | .vector items =>
    let (vs, w) := loadItems w [] items
    let (r, w) := w.addVector vs
    closeList w found (.vector r)
  | .tuple items =>
    let (vs, w) := loadItems w [] items
    let (r, w) := w.addTuple vs
    closeList w found (.tuple r)
  | .map entries =>
    let (es, w) := loadEntries w [] entries
    let (r, w) := w.addMap es
    closeList w found (.map r)
termination_by structural d => d

/-- Loads data in order; `found` holds the values before, last one first. -/
def loadItems (w : World) (found : List Value) : List Datum → List Value × World
  | [] => (found.reverse, w)
  | d :: ds =>
    let (v, w) := load w d
    loadItems w (v :: found) ds
termination_by structural ds => ds

/-- Loads entries in order. -/
def loadEntries (w : World) (found : List (Value × Value)) :
    List (Datum × Datum) → List (Value × Value) × World
  | [] => (found.reverse, w)
  | e :: es =>
    let (kv, w) := loadEntry w e
    loadEntries w (kv :: found) es
termination_by structural es => es

/-- Loads a key and its value. -/
def loadEntry (w : World) : Datum × Datum → (Value × Value) × World
  | (k, d) =>
    let (key, w) := load w k
    let (v, w) := load w d
    ((key, v), w)
termination_by structural e => e
end

end TemplateLisp.World
