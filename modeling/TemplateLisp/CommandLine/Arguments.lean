import TemplateLisp.Files
import TemplateLisp.Text.Digit
import TemplateLisp.Text.Quoted

/-!
# Arguments of the command line

The program takes one file and options. An option may be written by any start of its long name that
no other long name shares, with its value behind an equals sign or as the next argument; options of
one letter may be run together, the last of them with its value. Behind `--` nothing is an option.

First every argument is told apart as an option or not, and then they are taken from left to right.
-/

namespace TemplateLisp.CommandLine

/-! ## Options -/

/-- The options. -/
inductive Switch where
  | help
  | data
  | eval
  | verbose
  | version
deriving DecidableEq, Inhabited, Repr

namespace Switch

/-- All names of options. -/
def names : List (String × Switch) := [
  ("-h", .help), ("--help", .help), ("--data", .data), ("-e", .eval), ("--eval", .eval),
  ("-v", .verbose), ("--verbose", .verbose), ("--version", .version)]

/-- The option with the given name. -/
def named? (name : String) : Option Switch := names.lookup name

/-- What messages call the option. -/
def label (s : Switch) : String :=
  "/".intercalate ((names.filter fun n => n.2 = s).map (·.1))

/-- Whether the option has a value. -/
def takesValue : Switch → Bool
  | .data => true
  | .eval => true
  | _ => false

end Switch

/-- How the command line can be wrong. -/
inductive UsageFault where
  | ambiguous (argument : String) (candidates : List String)
  | valueMissing (option : Switch)
  | valueIgnored (option : Switch) (value : String)
  | unrecognized (arguments : List String)
  | badBinding (text : String)
deriving DecidableEq, Inhabited

/-- The wording of a usage fault. -/
def UsageFault.message : UsageFault → String
  | .ambiguous argument candidates =>
    "ambiguous option: " ++ argument ++ " could match " ++ ", ".intercalate candidates
  | .valueMissing option => "argument " ++ option.label ++ ": expected one argument"
  | .valueIgnored option value =>
    "argument " ++ option.label ++ ": ignored explicit argument " ++ Text.quoted value
  | .unrecognized arguments => "unrecognized arguments: " ++ " ".intercalate arguments
  | .badBinding text =>
    "argument " ++ Switch.data.label ++ ": expected NAME=JSON_FILE, got " ++ Text.quoted text

/-! ## Telling arguments apart -/

/-- What an argument is. -/
inductive Word where
  /-- The end of the options. -/
  | marker
  | plain
  /-- An option by a long name or a letter, with what is written behind the name. -/
  | option (s : Switch) (long : Bool) (value : Option String)
  | unknown
deriving DecidableEq, Inhabited

/-- The text before the first equals sign and the text behind it. -/
def splitEquals (s : List Char) : Option (String × String) :=
  match s.dropWhile (· ≠ '=') with
  | _ :: value => some (String.ofList (s.takeWhile (· ≠ '=')), String.ofList value)
  | [] => none

/-- Whether a name starts with two dashes. -/
def isLong (name : String) : Bool := name.toList.take 2 = ['-', '-']

/-- Whether a text starts with another. -/
def startsWith (s start : String) : Bool := start.toList.isPrefixOf s.toList

/-- The options that an argument may mean: by the start of a long name, or by its first letter. -/
def candidates (arg : String) : List (String × Switch × Option String) :=
  if isLong arg then
    let (start, value) := match splitEquals arg.toList with
      | some (start, value) => (start, some value)
      | none => (arg, none)
    (Switch.names.filter fun n => startsWith n.1 start).map fun (name, s) => (name, s, value)
  else
    let letter := String.ofList (arg.toList.take 2)
    (Switch.names.filter fun n => n.1 = letter).map fun (name, s) =>
      (name, s, some (String.ofList (arg.toList.drop 2)))

/-- Whether an argument is written like a negative number. -/
def isNegativeNumber (arg : String) : Bool :=
  match arg.toList with
  | '-' :: body =>
    let rest := body.dropWhile Text.isDigit
    match rest with
    | [] => !body.isEmpty
    | '.' :: decimals => !decimals.isEmpty && decimals.all Text.isDigit
    | _ => false
  | _ => false

/-- What an argument is that starts with a dash and names no option exactly. -/
def classifyDashed (arg : String) : Except UsageFault Word :=
  let exact := do
    let (name, value) ← splitEquals arg.toList
    let s ← Switch.named? name
    return Word.option s (isLong name) (some value)
  match exact with
  | some w => .ok w
  | none =>
    match candidates arg with
    | [(name, s, value)] => .ok (.option s (isLong name) value)
    | [] =>
      if isNegativeNumber arg || arg.toList.contains ' ' then .ok .plain else .ok .unknown
    | several => .error (.ambiguous arg (several.map (·.1)))

/-- What an argument is in front of the marker. -/
def classify (arg : String) : Except UsageFault Word :=
  match arg.toList with
  | ['-', '-'] => .ok .marker
  | ['-'] => .ok .plain
  | '-' :: _ =>
    match Switch.named? arg with
    | some s => .ok (.option s (isLong arg) none)
    | none => classifyDashed arg
  | _ => .ok .plain

/-- What all arguments are. -/
def classifyAll : List String → Except UsageFault (List (String × Word))
  | [] => .ok []
  | arg :: args => do
    let w ← classify arg
    if w = .marker then return (arg, w) :: args.map fun a => (a, .plain)
    else return (arg, w) :: (← classifyAll args)

/-! ## Taking arguments -/

/-- What a command line asks for. -/
structure Invocation where
  file : Option String
  data : List (String × Path)
  expression : Option String
  verbose : Bool
deriving DecidableEq, Inhabited

/-- What ends the reading of a command line early. -/
inductive Early where
  | help
  | version
  | misused (f : UsageFault)
  /-- A value was `--`, which is struck out where it must not be. -/
  | valueStruck
deriving DecidableEq, Inhabited

/-- The name and the path of `name=path`. -/
def binding? (text : String) : Option (String × Path) :=
  match splitEquals text.toList with
  | some (name, path) => if name = "" || path = "" then none else some (name, Path.parse path)
  | none => none

/-- Takes an option with its value, which is empty for options without one. -/
def Invocation.take (i : Invocation) (value : String) : Switch → Except Early Invocation
  | .help => .error .help
  | .version => .error .version
  | .verbose => .ok { i with verbose := true }
  | .eval => if value = "--" then .error .valueStruck else .ok { i with expression := some value }
  | .data =>
    if value = "--" then .error .valueStruck
    else
      match binding? value with
      | some b => .ok { i with data := i.data ++ [b] }
      | none => .error (.misused (.badBinding value))

/-- Takes options without a value. -/
def Invocation.takeAll (i : Invocation) : List Switch → Except Early Invocation
  | [] => .ok i
  | s :: ss => do (← i.take "" s).takeAll ss

/-- Takes apart what is written behind the name of an option: its value, or more options of one
letter of which the last may have a value. `before` holds the options passed. -/
def cluster (before : List Switch) (s : Switch) (long : Bool) :
    List Char → Except UsageFault (List Switch × Switch × Option String)
  | [] => if s.takesValue then .ok (before, s, some "") else .error (.valueIgnored s "")
  | c :: cs =>
    if s.takesValue then .ok (before, s, some (String.ofList (c :: cs)))
    else
      match long, Switch.named? (String.ofList ['-', c]) with
      | false, some next =>
        if cs.isEmpty then .ok (before ++ [s], next, none)
          else cluster (before ++ [s]) next false cs
      | _, _ => .error (.valueIgnored s (String.ofList (c :: cs)))

/-- The options that an argument holds: those without a value in front, the last one, and what is
written behind that. -/
def optionsOf (s : Switch) (long : Bool) :
    Option String → Except UsageFault (List Switch × Switch × Option String)
  | none => .ok ([], s, none)
  | some value => cluster [] s long value.toList

/-- Makes a usage fault the end of the reading. -/
def orMisused {α : Type} : Except UsageFault α → Except Early α
  | .ok a => .ok a
  | .error f => .error (.misused f)

/-- Takes the arguments from left to right. `taken` says whether there is a file already, and
`extras` holds the arguments that nothing asks for, last one first. -/
def takeArguments (i : Invocation) (taken : Bool) (extras : List String) :
    List (String × Word) → Except Early (Invocation × List String)
  | [] => .ok (i, extras.reverse)
  | (arg, .marker) :: rest =>
    if taken then .ok (i, extras.reverse ++ arg :: rest.map (·.1))
    else
      match rest with
      | [] => .ok (i, extras.reverse)
      | (file, _) :: more => .ok ({ i with file := some file }, extras.reverse ++ more.map (·.1))
  | (arg, .plain) :: rest =>
    if taken then takeArguments i true (arg :: extras) rest
    else
      match rest with
      | (_, .marker) :: more =>
        .ok ({ i with file := some arg }, extras.reverse ++ more.map (·.1))
      | _ => takeArguments { i with file := some arg } true extras rest
  | (arg, .unknown) :: rest => takeArguments i taken (arg :: extras) rest
  | (_, .option s long value) :: rest => do
    let (before, last, value) ← orMisused (optionsOf s long value)
    if !last.takesValue then takeArguments (← i.takeAll (before ++ [last])) taken extras rest
    else
      match value with
      | some v => takeArguments (← (← i.takeAll before).take v last) taken extras rest
      | none =>
        match rest with
        | (v, .plain) :: more =>
          takeArguments (← (← i.takeAll before).take v last) taken extras more
        | _ => throw (.misused (.valueMissing last))
termination_by structural words => words

/-- What a command line asks for. -/
def parseArguments (args : List String) : Except Early Invocation := do
  let words ← orMisused (classifyAll args)
  match ← takeArguments ⟨none, [], none, false⟩ false [] words with
  | (i, []) => return i
  | (_, extras) => throw (.misused (.unrecognized extras))

end TemplateLisp.CommandLine
