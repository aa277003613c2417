import TemplateLisp.CommandLine.Program

/-!
# The executable

Looks up what the program needs of its surroundings, runs it, and writes what it wrote.
-/

namespace TemplateLisp.CommandLine

/-- The host of the program lends neither functions nor objects. -/
@[reducible] def emptyHost : Host where
  function _ := .plain fun _ => .answer (.plain .null)
  find _ _ := .answer .absent
  resolve _ _ := .answer .absent
  method _ _ _ := .answer (.plain .null)
  element _ _ := .answer none
  size _ := .answer 0

/-- What stands at a path. -/
def lookAt (p : Path) : IO Entry := do
  let place := (← IO.currentDir) / p.text
  if ← place.isDir then
    return .directory ((← place.readDir).toList.map fun e => e.fileName)
  else if ← place.pathExists then
    return .file (← IO.FS.readFile place)
  else
    return .absent

/-- What stands at a path and, in a directory, at the names in it that a prelude may have. -/
def lookInto (p : Path) : IO (List (Path × Entry)) := do
  let e ← lookAt p
  match e with
  | .directory names =>
    let inside ← (names.filter Settings.isPreludeName).mapM fun name => do
      return (p.child name, ← lookAt (p.child name))
    return (p, e) :: inside
  | _ => return [(p, e)]

/-- The variables that settings are read from. -/
def readVariables : IO Variables := do
  let names := [Settings.preludeVariable, Settings.limitVariable, Settings.logVariable]
  let found ← names.mapM fun name => do return (← IO.getEnv name).map fun v => (name, v)
  return found.filterMap id

/-- The rest of a stream. -/
partial def readAll (stream : IO.FS.Stream) (text : String) : IO String := do
  let line ← stream.getLine
  if line.isEmpty then return text else readAll stream (text ++ line)

/-- What the program needs of its surroundings to do what a command line asks for. -/
def surroundings (inv : Invocation) : IO Surroundings := do
  let vars ← readVariables
  let file := inv.file.getD ""
  let paths := Settings.paths vars Settings.preludeVariable []
    ++ inv.data.map (·.2) ++ (if file = "" then [] else [Path.parse file])
  let found ← paths.mapM lookInto
  let needsInput := inv.expression.isNone && file = ""
  let input ← if needsInput then do readAll (← IO.getStdin) "" else pure ""
  return ⟨fun p => (found.flatten.lookup p).getD .absent, vars, input⟩

/-- The report of a run that stopped without an exit. -/
def stopReport : Stop → String
  | .error e => e.report
  | .returned _ => "return outside of a program"
  | .crash f => f.kind.name ++ ": " ++ f.message
  | .tooDeep => (Error.mk .tooDeep none).report
  | .endless => "evaluation does not end"

/-- Writes the outcome of a run and gives the exit code. -/
def finish : EStateM.Result Stop World Exit → IO UInt32
  | .ok (.finished code errors) w => do
    IO.print w.output
    IO.eprint errors
    return UInt32.ofNat code
  | .ok (.misused f) w => do
    IO.print w.output
    IO.eprintln (usage ++ misuseLine f)
    return 2
  | .error s w => do
    IO.print w.output
    IO.eprintln (stopReport s)
    return 1

end TemplateLisp.CommandLine

open TemplateLisp CommandLine in
/-- Runs the program on its arguments. -/
def main (args : List String) : IO UInt32 := do
  let _ : Host := emptyHost
  let s ← match parseArguments args with
    | .ok inv => surroundings inv
    | .error _ => pure ⟨fun _ => .absent, [], ""⟩
  finish (CommandLine.run Limits.standard s args World.empty)
