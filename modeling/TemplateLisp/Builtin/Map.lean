import TemplateLisp.Builtin.Argument

/-!
# Maps and association lists

An association list is a list of entries `(key value)` or `(key . value)`. Keys of maps and of
association lists match if they are equal or have the same bare name, so a symbol, a keyword and a
text find each other. A map is first asked for the key itself.
-/

namespace TemplateLisp.Maps

variable [Host]

/-! ## Association lists -/

/-- The first entry behind a place in an association list whose key matches, in at most `fuel`
steps; `index` counts the entries. Empty entries are passed over. -/
def findEntryAt (room : Room) (name : String) (key : Value) :
    (fuel index : Nat) → Cursor → Run (Option CellRef)
  | 0, _, _ => throw .endless
  | n + 1, i, c => do
    match ← c.next room with
    | none => return none
    | some (.nil, c) => findEntryAt room name key n (i + 1) c
    | some (.cell r, c) =>
      if ← Run.lookOrStop fun w => w.keysMatch room key (w.cell r).car then return some r
      else findEntryAt room name key n (i + 1) c
    | some (v, _) =>
      Run.wrongArgument name 1 ("a list of entries (entry " ++ toString i ++ " is not a list)") v

/-- The first entry of an association list whose key matches. -/
def findEntry (room : Room) (name : String) (key alist : Value) : Run (Option CellRef) := do
  match alist with
  | .nil => return none
  | .cell _ =>
    let c := .list alist none
    findEntryAt room name key (← Run.look (·.walkLength c)) 0 c
  | _ => Run.wrongArgument name 1 "an association list" alist

/-- The value of an entry, dotted or not. -/
def entryValue (r : CellRef) : Run Value := do
  match ← Run.look fun w => (w.cell r).cdr with
  | .cell s => Run.look fun w => (w.cell s).car
  | v => return v

/-- The first entry whose key matches, or `nil`. -/
def assoc (room : Room) (key alist : Value) : Run Value := do
  match ← findEntry room "assoc" key alist with
  | some r => return .cell r
  | none => return .nil

/-! ## Maps -/

/-- An argument that must be able to be a key. -/
def checkKey (name : String) (index : Nat) (key : Value) : Run Unit := do
  if ← Run.look (·.isKey key) then return ()
  else Run.wrongArgument name index "a hashable key" key

/-- The value under a key of a map, or of the first key that matches. -/
def valueAt? (room : Room) (r : MapRef) (key : Value) : Run (Option Value) :=
  Run.lookOrStop fun w => w.lookUp? room (w.entries r) key

/-- The value that a map or an association list has for a key, or `nil`. -/
def assocValue (room : Room) (key v : Value) : Run Value := do
  match v with
  | .map r =>
    checkKey "assoc-value" 0 key
    return (← valueAt? room r key).getD .nil
  | _ =>
    match ← findEntry room "assoc-value" key v with
    | some e => entryValue e
    | none => return .nil

/-- The value that a map or an association list has for a key, or a default. -/
def get (room : Room) (v key : Value) (default? : Option Value) : Run Value := do
  let absent := default?.getD .nil
  match v with
  | .nil => return absent
  | .map r =>
    checkKey "get" 1 key
    return (← valueAt? room r key).getD absent
  | .cell _ =>
    match ← findEntry room "get" key v with
    | some e => entryValue e
    | none => return absent
  | _ => Run.wrongArgument "get" 0 "a map" v

/-- Writes a value under the first key that matches, or under a new key. -/
def set (room : Room) (v key value : Value) : Run Value := do
  match v with
  | .map r =>
    checkKey "map-set!" 1 key
    let found ← Run.lookOrStop fun w => w.matchingKey? room key (w.entries r)
    modify fun w => w.setEntries r (w.putKey (found.getD key) value (w.entries r))
    return v
  | _ => Run.wrongArgument "map-set!" 0 "a map" v

/-- The elements of an argument that must be a pair of key and value. -/
def pairItems (room : Room) (index : Nat) (v : Value) : Run (Value × Value) := do
  let items ← match v with
    | .cell _ => Run.properItems room v
    | .vector r => Run.look (·.vector r)
    | .tuple r => Run.look (·.tuple r)
    | _ => pure []
  match items with
  | [key, value] => return (key, value)
  | _ => Run.wrongArgument "new-map" index "a (key value) pair" v

/-- The key that is stored for a key: a keyword for a text, so that keywords find it. -/
def storedKey : Value → Value
  | .str s => .sym (.keyword s)
  | v => v

/-- Writes the entries of pairs, the first of which has the given index. -/
def collect (room : Room) : (index : Nat) → List (Value × Value) → List Value →
    Run (List (Value × Value))
  | _, entries, [] => pure entries
  | i, entries, v :: vs => do
    let (key, value) ← pairItems room i v
    checkKey "new-map" i key
    collect room (i + 1) (← Run.look (·.putKey (storedKey key) value entries)) vs

/-- A new map of pairs. -/
def ofPairs (room : Room) (args : List Value) : Run Value := do
  Run.map (← collect room 0 [] args)

/-- The entries of an argument that must be a map. -/
def entriesOf (name : String) (v : Value) : Run (List (Value × Value)) :=
  match v with
  | .map r => Run.look (·.entries r)
  | _ => Run.wrongArgument name 0 "a map" v

/-- The keys of a map, as a list. -/
def keys (v : Value) : Run Value := do Run.list ((← entriesOf "keys" v).map (·.1))

/-- The values of a map, as a list. -/
def values (v : Value) : Run Value := do Run.list ((← entriesOf "vals" v).map (·.2))

/-- The entries of a map, as a list of two-element lists. -/
def entries (v : Value) : Run Value := do
  Run.list (← (← entriesOf "entries" v).mapM fun (k, x) => Run.list [k, x])

/-! ## Keywords as functions -/

/-- What a keyword gives when it is called: the value that a map has under the keyword itself or
under its bare name as a text, or a default. -/
def ofKeyword (s : Symbol) (args : List Value) : Run Value := do
  let look (target absent : Value) : Run Value := do
    match target with
    | .nil => return absent
    | .map r =>
      let found ← Run.look fun w =>
        (w.findKey? (w.entries r) (.sym s)).or (w.findKey? (w.entries r) (.str s.bareName))
      return found.getD absent
    | _ => Run.wrongArgument s.name 0 "a map" target
  match args with
  | [target] => look target .nil
  | [target, absent] => look target absent
  | _ => Run.fail (.arity (.keyword s.name))

end TemplateLisp.Maps
