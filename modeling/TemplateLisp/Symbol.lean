/-!
# Symbols and source positions

A symbol is its name. Two kinds of name have a marker in front and mean something special at the
head of a form: keywords (`:name`) look a key up in a map, member names (`.name`) reach into host
objects.
-/

namespace TemplateLisp

/-- A place in a source text; lines and columns count from one. -/
structure Pos where
  line : Nat
  column : Nat
deriving DecidableEq, Inhabited, Repr

/-- A symbol, known by its name alone. -/
structure Symbol where
  name : String
deriving DecidableEq, Inhabited, Repr

namespace Symbol

/-- Whether the name is a colon with something after it; such symbols evaluate to themselves. -/
def isKeyword (s : Symbol) : Bool :=
  match s.name.toList with
  | ':' :: _ :: _ => true
  | _ => false

/-- Whether the name is a dot with something after it. -/
def isMember (s : Symbol) : Bool :=
  match s.name.toList with
  | '.' :: _ :: _ => true
  | _ => false

/-- The name without the marker of a keyword or member name. -/
def bareName (s : Symbol) : String :=
  if s.isKeyword || s.isMember then String.ofList s.name.toList.tail else s.name

/-- The keyword with the given bare name. -/
def keyword (name : String) : Symbol := ⟨":" ++ name⟩

end Symbol

end TemplateLisp
