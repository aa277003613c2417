import TemplateLisp.ParameterList

/-!
# Code of the host

A host lends its functions and objects to programs, and their code is its own affair. What can be
said of it is how it gets at the world: it works on values that it has been given, and it asks for
what the data types offer, one thing after the other. `HostCode` is code as what it asks for next,
depending on what it has been told so far. It knows a value by a number and sees what it is; so it
can make nothing out of thin air but values that refer to nothing, and it can put a value only where
an operation puts it. The scope around a frame is set when the frame is made, and no frame is made
but inside of one that is known.

`Host` is all code of a host. What the code of a function is given are the arguments and, if it asks
for that, the environment of the call; it may call functions of the program back.
-/

namespace TemplateLisp

/-- A way to call a function value with evaluated arguments. -/
abbrev Caller := Value → List Value → Run Value

/-! ## What host code asks for -/

/-- A value that host code has been given: the number that it goes by, and what it looks like. -/
structure Known where
  number : Nat
  view : Value
deriving Inhabited

/-- Values under the numbers from `first` on. -/
def Known.numbered (first : Nat) : List Value → List Known
  | [] => []
  | v :: vs => ⟨first, v⟩ :: numbered (first + 1) vs

/-- How host code names a value: by its number, or by what it is if it refers to nothing. -/
inductive Handle where
  | known (number : Nat)
  | plain (v : Value)
deriving Inhabited

/-- The value of that name, where the values have been given in this order. -/
def Handle.value (known : List Value) : Handle → Value
  | .known number => known.getD number .nil
  | .plain v => if v.isPlain then v else .nil

/-- What host code may ask for. Asked of a value of another kind, it is given nothing, and nothing
is done. -/
inductive HostRequest where
  /-- The values that an object holds. -/
  | parts (owner : Handle)
  /-- A field of an object of the host. -/
  | field (owner : Handle) (name : String)
  /-- The names of the members that an object of the host has besides its fields. -/
  | members (owner : Handle)
  /-- The size of data. -/
  | size (v : Handle)
  /-- The bare text of a value. -/
  | text (v : Handle)
  /-- The name of the type of a value. -/
  | typeName (v : Handle)
  /-- What the host has kept for itself. -/
  | remembered
  | remember (v : Handle)
  | cons (car cdr : Handle) (pos : Option Pos)
  | vector (items : List Handle)
  | tuple (items : List Handle)
  | map (entries : List (Handle × Handle))
  | generator (items : List Handle)
  | object (kind : HostClass) (fields : List (String × Handle))
  /-- A frame inside of an environment. -/
  | frame (outer : Handle)
  /-- A closure; nothing is made if the parameters are no parameter list. -/
  | closure (params body env : Handle) (name : Option String)
  | setCar (r v : Handle)
  | setCdr (r v : Handle)
  | setVector (r : Handle) (items : List Handle)
  | setEntries (r : Handle) (entries : List (Handle × Handle))
  | setFields (r : Handle) (fields : List (String × Handle))
  /-- The next element of a one-shot sequence. -/
  | take (r : Handle)
  | define (env : Handle) (name : Symbol) (v : Handle)

namespace World

/-- Whether a value has a size. -/
def isSized (w : World) : Value → Bool
  | .nil | .cell _ | .vector _ | .tuple _ | .map _ | .str _ | .bytes _ => true
  | .object r => (w.object r).kind.sized
  | _ => false

/-- The size of a value that is no object of the host. -/
def sizeOf (w : World) (room : Room) (v : Value) : Except Stop Nat :=
  match v with
  | .nil => .ok 0
  | .cell _ =>
    match w.spine? v with
    | none => .error .endless
    | some (cells, .nil) => .ok cells.length
    | some _ => do .error (.ofFault (.type (.improperList (← w.readableText room v))))
  | .vector r => .ok (w.vector r).length
  | .tuple r => .ok (w.tuple r).length
  | .map r => .ok (w.entries r).length
  | .str s => .ok s.length
  | .bytes bs => .ok bs.length
  | _ => .error (.crash (.notSized (w.qualifiedTypeName v)))

/-- The entries that are left of some that are written one after the other. What cannot be a key is
left out. -/
def entriesOf (w : World) (entries : List (Value × Value)) : List (Value × Value) :=
  (entries.filter fun e => w.isKey e.1).foldl (fun es e => w.putKey e.1 e.2 es) []

/-- Makes a value and gives it. -/
def giving {α : Type} (made : α × World) (value : α → Value) : Except Stop (List Value) × World :=
  (.ok [value made.1], made.2)

/-- Gives what is asked for and does what it takes. `known` are the values that the code has been
given. -/
def serve (w : World) (room : Room) (known : List Value) :
    HostRequest → Except Stop (List Value) × World
  | .parts owner => (.ok (w.parts (owner.value known)), w)
  | .field owner name =>
    match owner.value known with
    | .object r => (.ok ((w.object r).fields.lookup name).toList, w)
    | _ => (.ok [], w)
  | .members owner =>
    match owner.value known with
    | .object r => (.ok ((w.object r).kind.members.map .str), w)
    | _ => (.ok [], w)
  | .size v => ((w.sizeOf room (v.value known)).map fun n => [.int n], w)
  | .text v => ((w.plain room (v.value known)).map fun text => [.str text], w)
  | .typeName v => (.ok [.str (w.qualifiedTypeName (v.value known))], w)
  | .remembered => (.ok w.memory, w)
  | .remember v => (.ok [], w.remember (v.value known))
  | .cons car cdr pos => giving (w.addCell ⟨car.value known, cdr.value known, pos⟩) .cell
  | .vector items => giving (w.addVector (items.map (·.value known))) .vector
  | .tuple items => giving (w.addTuple (items.map (·.value known))) .tuple
  | .map entries =>
    giving (w.addMap (w.entriesOf (entries.map fun e => (e.1.value known, e.2.value known)))) .map
  | .generator items => giving (w.addGenerator (items.map (·.value known))) .generator
  | .object kind fields =>
    giving (w.addObject ⟨kind, fields.map fun f => (f.1, f.2.value known)⟩) .object
  | .frame outer =>
    match outer.value known with
    | .env r => giving (w.addFrame ⟨[], some r⟩) .env
    | _ => (.ok [], w)
  | .closure params body env name =>
    match env.value known, w.spine? (params.value known) with
    | .env r, some (cells, tail) =>
      match ParameterList.parse (cells.map (·.car)) tail with
      | .ok formals =>
        giving (w.addClosure ⟨params.value known, formals, body.value known, r, name⟩) .closure
      | .error _ => (.ok [], w)
    | _, _ => (.ok [], w)
  | .setCar r v =>
    match r.value known with
    | .cell r => (.ok [], w.setCar r (v.value known))
    | _ => (.ok [], w)
  | .setCdr r v =>
    match r.value known with
    | .cell r => (.ok [], w.setCdr r (v.value known))
    | _ => (.ok [], w)
  | .setVector r items =>
    match r.value known with
    | .vector r => (.ok [], w.setVector r (items.map (·.value known)))
    | _ => (.ok [], w)
  | .setEntries r entries =>
    match r.value known with
    | .map r =>
      (.ok [], w.setEntries r
        (w.entriesOf (entries.map fun e => (e.1.value known, e.2.value known))))
    | _ => (.ok [], w)
  | .setFields r fields =>
    match r.value known with
    | .object r => (.ok [], w.setFields r (fields.map fun f => (f.1, f.2.value known)))
    | _ => (.ok [], w)
  | .take r =>
    match r.value known with
    | .generator r =>
      match w.generator r with
      | v :: vs => (.ok [v], w.setGenerator r vs)
      | [] => (.ok [], w)
    | _ => (.ok [], w)
  | .define env name v =>
    match env.value known with
    | .env r => (.ok [], w.define r name (v.value known))
    | _ => (.ok [], w)

end World

/-! ## Code -/

/-- Host code that ends in an answer: an answer, a failure, something that it asks for first, or a
function that it calls first. Code that never ends is code that raises `Stop.endless`. -/
inductive HostCode (α : Type) where
  | answer (a : α)
  | raise (s : Stop)
  | ask (request : HostRequest) (next : Except Stop (List Known) → HostCode α)
  | call (env function : Handle) (arguments : List Handle) (next : Except Stop Known → HostCode α)

namespace HostCode

variable {α : Type}

/-- Calls a function back in an environment. -/
def callBack (call : FrameRef → Caller) (env f : Value) (args : List Value) : Run Value :=
  match env with
  | .env r => call r f args
  | _ => Run.crash (.raised .typeError "no environment to call in")

/-- Runs code that has been given the values `known`, with a way to call functions in an
environment. The code sees how what it asks for fails, except that it does not see the steps run
out. -/
def run (room : Room) (call : FrameRef → Caller) : (known : List Value) → HostCode α →
    Run (α × List Value)
  | known, .answer a => pure (a, known)
  | _, .raise s => throw s
  | known, .ask request next => do
    match ← Run.make (·.serve room known request) with
    | .ok vs => run room call (known ++ vs) (next (.ok (Known.numbered known.length vs)))
    | .error .endless => throw .endless
    | .error s => run room call known (next (.error s))
  | known, .call env f args next => do
    let outcome ← tryCatch
      (Except.ok <$> callBack call (env.value known) (f.value known) (args.map (·.value known)))
      fun
        | .endless => throw .endless
        | s => pure (.error s)
    match outcome with
    | .ok v => run room call (known ++ [v]) (next (.ok ⟨known.length, v⟩))
    | .error s => run room call known (next (.error s))

/-- Runs code that answers with a value. -/
def value (room : Room) (call : FrameRef → Caller) (known : List Value) (code : HostCode Handle) :
    Run Value := do
  let (handle, known) ← code.run room call known
  return handle.value known

/-- There is nothing to be called where a walk or a measure is under way. -/
def noCalls : FrameRef → Caller := fun _ _ _ => Run.crash (.raised .runtimeError "no calls here")

/-- Code that has nothing to call sees its calls fail. -/
theorem run_call_noCalls (room : Room) (known : List Value) (env f : Handle) (args : List Handle)
    (next : Except Stop Known → HostCode α) :
    ∃ s, (call env f args next).run room noCalls known =
      (next (.error s)).run room noCalls known := by
  simp only [run]
  cases env.value known
  all_goals exact ⟨_, rfl⟩

end HostCode

/-! ## Hosts -/

/-- What a program calls as a function of the host: an ordinary function of the arguments, or one
that is also given the environment of the call. -/
inductive HostFunction where
  | plain (code : List Known → HostCode Handle)
  | raw (code : Known → List Known → HostCode Handle)

/-- What the name of a member stands for on an object of the host. -/
inductive Attribute where
  | absent
  | value (v : Handle)
  /-- A method, to be called with arguments. -/
  | method

/-- The code of a host. -/
class Host where
  function : HostFunctionRef → HostFunction
  /-- Looks for an attribute of a value that is none of the language's own objects. -/
  find : (name : String) → (owner : Known) → HostCode Attribute
  /-- Looks for a member of an object that resolves its members itself. -/
  resolve : (name : String) → (owner : Known) → HostCode Attribute
  /-- Calls a method. -/
  method : (name : String) → (owner : Known) → (arguments : List Known) → HostCode Handle
  /-- The element of that number in a walk through an object, unless the walk is over. -/
  element : (owner : Known) → (index : Nat) → HostCode (Option Handle)
  /-- The size of an object. -/
  size : (owner : Known) → HostCode Nat

namespace Host

variable [Host] (room : Room) (call : FrameRef → Caller)

/-- Calls a function of the host. -/
def callFunction (env : FrameRef) (f : HostFunctionRef) (args : List Value) : Run Value :=
  match function f with
  | .plain code => (code (Known.numbered 0 args)).value room call args
  | .raw code =>
    (code ⟨0, .env env⟩ (Known.numbered 1 args)).value room call (.env env :: args)

/-- Calls a method of a value. -/
def callMethod (owner : Value) (name : String) (args : List Value) : Run Value :=
  (method name ⟨0, owner⟩ (Known.numbered 1 args)).value room call (owner :: args)

/-- The element of that number in a walk through an object. -/
def elementAt (r : ObjectRef) (index : Nat) : Run (Option Value) := do
  let (found, known) ← (element ⟨0, .object r⟩ index).run room HostCode.noCalls [.object r]
  return found.map (·.value known)

/-- The size of an object. -/
def sizeOf (r : ObjectRef) : Run Nat := do
  return (← (size ⟨0, .object r⟩).run room HostCode.noCalls [.object r]).1

end Host

end TemplateLisp
