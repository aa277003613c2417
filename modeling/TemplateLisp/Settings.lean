import TemplateLisp.Files
import TemplateLisp.Number.IntegerText
import TemplateLisp.Text.Blank
import TemplateLisp.Text.Case

/-!
# Settings

What the variables of the surroundings settle: where the prelude is found, how deep evaluations may
nest, and how much is logged.
-/

namespace TemplateLisp

/-- Variables of the surroundings, by name. -/
abbrev Variables := List (String × String)

namespace Settings

/-- The name of the program. -/
def programName : String := "scriptlisp"

/-- The variable that names the prelude. -/
def preludeVariable : String := "SCRIPTLISP_PRELUDE_PATH"

/-- The variable that bounds the depth of evaluations. -/
def limitVariable : String := "SCRIPTLISP_RECURSION_LIMIT"

/-- The variable that says how much is logged. -/
def logVariable : String := "SCRIPTLISP_LOG_LEVEL"

/-- A text without blanks at its ends. -/
def trimmed (s : String) : String := String.ofList (Text.trim s.toList)

/-- The paths that a text separates by colons; blank ones are left out. -/
def splitPaths (s : String) : List Path :=
  ((s.splitOn ":").map trimmed).filter (· ≠ "") |>.map Path.parse

/-- The paths that a variable names; none if the variable is not set or empty. -/
def paths? (vars : Variables) (name : String) : Option (List Path) :=
  match vars.lookup name with
  | none => none
  | some s => if s = "" then none else some (splitPaths s)

/-- The paths that a variable names, or the given ones. -/
def paths (vars : Variables) (name : String) (absent : List Path) : List Path :=
  (paths? vars name).getD absent

/-- Whether the name is one of a prelude file. -/
def isPreludeName (name : String) : Bool :=
  match name.toList.reverse with
  | 'l' :: '.' :: _ => true
  | _ => false

/-- The prelude files behind a path: the file itself, or those in a directory in the order of their
names. -/
def filesBehind (files : Files) (p : Path) : List Path :=
  match files p with
  | .file _ => [p]
  | .directory names =>
    ((names.filter isPreludeName).mergeSort fun a b => !decide (b < a)).map p.child
  | _ => []

/-- The prelude files in the order in which they are loaded. -/
def preludeFiles (files : Files) (ps : List Path) : List Path := ps.flatMap (filesBehind files)

/-- The depth that is granted when none is asked for. -/
def standardLimit : Int := 4000

/-- The least depth that can be asked for. -/
def leastLimit : Int := 100

/-- The greatest depth that the host can set. -/
def greatestLimit : Int := Nat.pow 2 31 - 1

/-- The depth that is asked for; a text that is no integer asks for nothing. -/
def recursionLimit (vars : Variables) : Int :=
  match IntegerText.parse ((vars.lookup limitVariable).getD "") with
  | .ok n => max n leastLimit
  | .error _ => standardLimit

/-- How much is logged when nothing is said. -/
def standardLogLevel : String := "WARNING"

/-- How much is logged. -/
def logLevel (vars : Variables) : String :=
  match vars.lookup logVariable with
  | none => standardLogLevel
  | some s =>
    let level := String.ofList (Text.upper (Text.trim s.toList))
    if level = "" then standardLogLevel else level

end Settings

end TemplateLisp
