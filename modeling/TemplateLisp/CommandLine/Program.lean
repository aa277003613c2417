import TemplateLisp.CommandLine.Arguments
import TemplateLisp.DataFile
import TemplateLisp.Interpreter
import TemplateLisp.Settings
import TemplateLisp.Text.Lines

/-!
# The program

The command line as a run: it makes an interpreter, binds the data files, and either evaluates an
expression and writes its value or renders a program and writes its output. What goes to the
standard output is the output of the world.
-/

namespace TemplateLisp.CommandLine

/-- What the program can see of its surroundings. -/
structure Surroundings where
  files : Files
  vars : Variables
  /-- What stands on the standard input. -/
  input : String

/-- How the program ends. -/
inductive Exit where
  /-- With a code and what it wrote for errors. -/
  | finished (code : Nat) (errors : String)
  /-- Because the command line is wrong. -/
  | misused (f : UsageFault)
deriving DecidableEq, Inhabited

/-- The version of the program. -/
def version : String := "0.3.0"

/-- The line that reports a wrong command line. -/
def misuseLine (f : UsageFault) : String := Settings.programName ++ ": error: " ++ f.message

/-- The usage of the program. -/
def usage : String :=
  "usage: " ++ Settings.programName
    ++ " [-h] [--data NAME=JSON_FILE] [-e EXPR] [-v] [--version] [file]\n"

/-- The text of a file; stops if there is none. -/
def readText (files : Files) (p : Path) : Run String :=
  match files p with
  | .file content => pure (Text.withLineFeeds content)
  | .absent => Run.crash (.fileNotFound p.text)
  | .blocked => Run.crash (.notADirectory p.text)
  | .directory _ => Run.crash (.isADirectory p.text)

variable [Host]

/-- Loads files in order. -/
def loadFiles (i : Interpreter) (limits : Limits) (files : Files) : List Path → Run Unit
  | [] => pure ()
  | p :: ps => do
    i.load limits (← readText files p)
    loadFiles i limits files ps

/-- A new interpreter with the prelude that the settings name. -/
def start (limits : Limits) (s : Surroundings) : Run Interpreter := do
  if Settings.greatestLimit < Settings.recursionLimit s.vars then Run.crash .limitTooLarge
  let i ← Interpreter.bare
  match Settings.paths? s.vars Settings.preludeVariable with
  | none => i.load limits prelude
  | some ps => loadFiles i limits s.files (Settings.preludeFiles s.files ps)
  return i

/-- Binds the contents of data files. -/
def bindData (i : Interpreter) (limits : Limits) (files : Files) :
    List (String × Path) → Run Unit
  | [] => pure ()
  | (name, p) :: rest => do
    let text ← readText files p
    match DataFile.parse limits.room text with
    | .ok d => i.set name (← Run.make fun w => w.load d)
    | .error .malformed => Run.crash .malformedJson
    | .error (.tooManyDigits n) => Run.crash (.literalTooLong n)
    | .error .tooDeep => Run.crash .tooDeep
    bindData i limits files rest

/-- The end of a program that an error stopped. -/
def failed (e : Error) : Exit := .finished 1 (e.report ++ "\n")

/-- Evaluates an expression and writes its value. -/
def showValue (i : Interpreter) (limits : Limits) (source : String) : Run Exit := do
  let outcome : Except Error Value ← tryCatch
    (do return .ok (← i.evaluate limits source)) fun
    | .error e => pure (.error e)
    | s => throw s
  match outcome with
  | .error e => return failed e
  | .ok v =>
    let text ← Run.lookOrStop fun w => w.readableText limits.room v
    modify (·.emit (text ++ "\n"))
    return .finished 0 ""

/-- Renders a program and writes its output. -/
def showRendering (i : Interpreter) (limits : Limits) (source : String) : Run Exit := do
  let r ← i.render limits source
  modify (·.emit r.output)
  match r.error with
  | some e => return failed e
  | none => return .finished 0 ""

/-- Does what a command line asks for. -/
def perform (limits : Limits) (s : Surroundings) (inv : Invocation) : Run Exit := do
  let i ← start limits s
  bindData i limits s.files inv.data
  match inv.expression with
  | some source => showValue i limits source
  | none =>
    let file := inv.file.getD ""
    if file = "" then showRendering i limits s.input
    else showRendering i limits (← readText s.files (Path.parse file))

/-- Runs the program. -/
def run (limits : Limits) (s : Surroundings) (args : List String) : Run Exit := do
  match parseArguments args with
  | .ok inv => perform limits s inv
  | .error .help =>
    modify (·.emit usage)
    return .finished 0 ""
  | .error .version =>
    modify (·.emit (Settings.programName ++ " " ++ version ++ "\n"))
    return .finished 0 ""
  | .error (.misused f) => return .misused f
  | .error .valueStruck =>
    Run.crash (.raised .valueError "not enough values to unpack (expected 1, got 0)")

end TemplateLisp.CommandLine
