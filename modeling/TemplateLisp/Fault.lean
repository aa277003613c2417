import TemplateLisp.Symbol
import TemplateLisp.Number.Basic
import TemplateLisp.Text.Quoted

/-!
# What can go wrong

Errors of the language are causes, one constructor each, and their wording stands in one function
per family. An `Error` is a cause with the place in the source that is blamed for it, once one is
known.

A `HostFault` is a failure of the host itself: an operation of its own that has no result, or host
code that gave up. Inside a call of a built-in function such a failure becomes an error of the
language; elsewhere it ends the evaluation as it is.
-/

namespace TemplateLisp

/-! ## Failures of the host -/

/-- The families in which the host sorts its failures. -/
inductive HostFaultKind where
  | typeError
  | valueError
  | keyError
  | indexError
  | runtimeError
  | attributeError
  | overflowError
  | invalidOperation
  | overflow
  | fileNotFound
  | notADirectory
  | isADirectory
  | malformedJson
  | recursion
  /-- The errors of another class, be it one of the language to which host code came. -/
  | other (className : String)
deriving DecidableEq, Inhabited

/-- The name under which a message mentions the family. -/
def HostFaultKind.name : HostFaultKind → String
  | .typeError => "TypeError"
  | .valueError => "ValueError"
  | .keyError => "KeyError"
  | .indexError => "IndexError"
  | .runtimeError => "RuntimeError"
  | .attributeError => "AttributeError"
  | .overflowError => "OverflowError"
  | .invalidOperation => "InvalidOperation"
  | .overflow => "Overflow"
  | .fileNotFound => "FileNotFoundError"
  | .notADirectory => "NotADirectoryError"
  | .isADirectory => "IsADirectoryError"
  | .malformedJson => "JSONDecodeError"
  | .recursion => "RecursionError"
  | .other className => className

/-- A failure of the host. -/
inductive HostFault where
  /-- An integer literal has more digits than may be read. -/
  | literalTooLong (digits : Nat)
  /-- An integer has more digits than may be written. -/
  | integerTextTooLong
  /-- The body of a string literal ends in a backslash. -/
  | openEscape
  /-- Something that has no elements was walked through. -/
  | notIterable (typeName : String)
  /-- Something that has no size was measured. -/
  | notSized (typeName : String)
  /-- A map was given a new key while a loop walked through it. -/
  | mapResized
  /-- Arithmetic without a result. -/
  | number (fault : NumberFault)
  /-- A remainder of a double and a decimal, by the names of the operand types. -/
  | remainderMixed (left right : String)
  /-- A text is no integer, as messages show it. -/
  | invalidInteger (shown : String)
  /-- A value of this type has no integer. -/
  | noInteger (typeName : String)
  /-- An infinite or undefined number has no integer. -/
  | infinityToInteger
  | nanToInteger
  /-- More elements were asked for than can be counted. -/
  | tooManyElements
  /-- A recursion limit is out of range. -/
  | limitTooLarge
  /-- An object has no such attribute. -/
  | noAttribute (typeName field : String)
  /-- A function was called with the wrong number of arguments. -/
  | wrongCount (message : String)
  /-- There is no file at the path. -/
  | fileNotFound (path : String)
  /-- A directory stands at the path. -/
  | isADirectory (path : String)
  /-- A file stands where the path needs a directory. -/
  | notADirectory (path : String)
  /-- A data file is not well-formed. -/
  | malformedJson
  /-- The call stack is exhausted. -/
  | tooDeep
  /-- Host code gave up with a message of its own. -/
  | raised (kind : HostFaultKind) (message : String)
deriving DecidableEq, Inhabited

namespace HostFault

/-- A `return` left host code. -/
def returnSignal : HostFault := .raised (.other "ReturnSignal") "return"

/-- The family of a failure. -/
def kind : HostFault → HostFaultKind
  | .literalTooLong _ => .valueError
  | .integerTextTooLong => .valueError
  | .openEscape => .indexError
  | .notIterable _ => .typeError
  | .notSized _ => .typeError
  | .mapResized => .runtimeError
  | .number .mixed => .typeError
  | .number .integerTooLarge => .overflowError
  | .number .quotientTooLarge => .overflowError
  | .number .zeroDivisor => .valueError
  | .number (.decimal .overflow) => .overflow
  | .number (.decimal _) => .invalidOperation
  | .remainderMixed _ _ => .typeError
  | .invalidInteger _ => .valueError
  | .noInteger _ => .typeError
  | .infinityToInteger => .overflowError
  | .nanToInteger => .valueError
  | .tooManyElements => .overflowError
  | .limitTooLarge => .overflowError
  | .noAttribute _ _ => .attributeError
  | .wrongCount _ => .typeError
  | .fileNotFound _ => .fileNotFound
  | .isADirectory _ => .isADirectory
  | .notADirectory _ => .notADirectory
  | .malformedJson => .malformedJson
  | .tooDeep => .recursion
  | .raised kind _ => kind

/-- The wording of a failure. -/
def message : HostFault → String
  | .literalTooLong digits =>
    "Exceeds the limit (4300 digits) for integer string conversion: value has " ++ toString digits
      ++ " digits; use sys.set_int_max_str_digits() to increase the limit"
  | .integerTextTooLong =>
    "Exceeds the limit (4300 digits) for integer string conversion; "
      ++ "use sys.set_int_max_str_digits() to increase the limit"
  | .openEscape => "string index out of range"
  | .notIterable typeName => "'" ++ typeName ++ "' object is not iterable"
  | .notSized typeName => "object of type '" ++ typeName ++ "' has no len()"
  | .mapResized => "dictionary changed size during iteration"
  | .number .mixed => "unsupported operand types"
  | .number .integerTooLarge => "int too large to convert to float"
  | .number .quotientTooLarge => "integer division result too large for a float"
  | .number .zeroDivisor => "division by zero"
  | .number (.decimal .invalidOperation) => "[<class 'decimal.InvalidOperation'>]"
  | .number (.decimal .divisionImpossible) => "[<class 'decimal.DivisionImpossible'>]"
  | .number (.decimal .overflow) => "[<class 'decimal.Overflow'>]"
  | .remainderMixed left right =>
    "unsupported operand type(s) for %: '" ++ left ++ "' and '" ++ right ++ "'"
  | .invalidInteger shown => "invalid literal for int() with base 10: " ++ shown
  | .noInteger typeName =>
    "int() argument must be a string, a bytes-like object or a real number, not '"
      ++ typeName ++ "'"
  | .infinityToInteger => "cannot convert float infinity to integer"
  | .nanToInteger => "cannot convert float NaN to integer"
  | .tooManyElements => "Python int too large to convert to C ssize_t"
  | .limitTooLarge => "Python int too large to convert to C int"
  | .noAttribute typeName field =>
    "'" ++ typeName ++ "' object has no attribute '" ++ field ++ "'"
  | .wrongCount message => message
  | .fileNotFound path => "[Errno 2] No such file or directory: " ++ Text.quoted path
  | .isADirectory path => "[Errno 21] Is a directory: " ++ Text.quoted path
  | .notADirectory path => "[Errno 20] Not a directory: " ++ Text.quoted path
  | .malformedJson => "malformed JSON"
  | .tooDeep => "maximum recursion depth exceeded"
  | .raised _ message => message

end HostFault

/-! ## Errors of the language -/

/-- Why a source text cannot be read. -/
inductive SyntaxFault where
  | unterminatedString
  | unexpectedChar (c : Char)
  | badUnicodeEscape (digits : String)
  | malformedNumber (text : String)
  | endOfInput
  | formExpectedAfter (mark : String)
  | unexpectedToken (token : String)
  | unmatched (opener : String)
  | mismatched (closer opener : String) (opened : Pos)
  | nothingBeforeDot
  | closerExpectedAfterTail
  | oddMap (count : Nat)
  | badMapKey (shown : String)
  | trailingToken (token : String)
deriving DecidableEq, Inhabited

/-- The wording of a syntax fault. -/
def SyntaxFault.message : SyntaxFault → String
  | .unterminatedString => "Unterminated string literal"
  | .unexpectedChar c => "Unexpected character " ++ Text.quoted (String.singleton c)
  | .badUnicodeEscape digits => "Invalid unicode escape \\u" ++ digits
  | .malformedNumber text => "Malformed number " ++ Text.quoted text
  | .endOfInput => "Unexpected end of input"
  | .formExpectedAfter mark => "Expected a form after " ++ mark
  | .unexpectedToken token => "Unexpected " ++ Text.quoted token
  | .unmatched opener => "Unmatched " ++ Text.quoted opener
  | .mismatched closer opener opened =>
    "Mismatched " ++ Text.quoted closer ++ " for " ++ Text.quoted opener ++ " opened at line "
      ++ toString opened.line ++ ", column " ++ toString opened.column
  | .nothingBeforeDot => "Nothing before '.' in dotted list"
  | .closerExpectedAfterTail => "Expected ')' after dotted cdr"
  | .oddMap count => "Map literal needs an even number of forms, got " ++ toString count
  | .badMapKey shown => "Map key must be an atom, got " ++ shown
  | .trailingToken token => "Unexpected " ++ Text.quoted token ++ " after expression"

/-- Why a form cannot be evaluated. Texts in the constructors are values as messages show them. -/
inductive FormFault where
  | improperArguments
  | receiverMissing (member : String)
  | notCallable (head value : String)
  | notApplicable (value : String)
  | symbolNotApplicable (name : String)
  | notASymbolName (value : String)
  | parameterNotSymbol (value : String)
  | secondRestParameter
  | malformedParameters (value : String)
  | restParameterMissing
  | setTarget (value : String)
  | functionName (value : String)
  | macroName (value : String)
  | clauseNotList (value : String)
  | letWithoutBindings
  | letBindingsNotList (value : String)
  | malformedBinding (value : String)
  | oversizedBinding (value : String)
  | loopWithoutSpec (form role : String)
  | loopSpecNotList (form : String)
  | loopSpecSize (form : String)
  | loopVariable (form value : String)
  | whileWithoutTest
  | spliceOutsideList
  | unquoteOutside (form : String)
  | stepPlace (form value : String)
  /-- A message that the host chose. -/
  | stated (message : String)
deriving DecidableEq, Inhabited

/-- The wording of a form fault. -/
def FormFault.message : FormFault → String
  | .improperArguments => "Argument list must be a proper list"
  | .receiverMissing member => member ++ " requires a receiver argument"
  | .notCallable head value => "Not callable: " ++ head ++ " evaluated to " ++ value
  | .notApplicable value => "Not callable: " ++ value
  | .symbolNotApplicable name => "Symbol " ++ name ++ " is not callable"
  | .notASymbolName value => "Cannot define " ++ value ++ " as a symbol"
  | .parameterNotSymbol value => "Parameter must be a symbol, got " ++ value
  | .secondRestParameter => "Only one &rest parameter is allowed"
  | .malformedParameters value => "Malformed parameter list: " ++ value
  | .restParameterMissing => "&rest must be followed by a parameter"
  | .setTarget value => "setq target must be a Symbol, got " ++ value
  | .functionName value => "defn name must be a Symbol, got " ++ value
  | .macroName value => "Macro name must be a Symbol, got " ++ value
  | .clauseNotList value => "cond clause must be a list, got " ++ value
  | .letWithoutBindings => "let requires a binding list"
  | .letBindingsNotList value => "let bindings must be a list, got " ++ value
  | .malformedBinding value => "Malformed let binding " ++ value
  | .oversizedBinding value => "let binding has too many forms: " ++ value
  | .loopWithoutSpec form role => form ++ " requires a (var " ++ role ++ ") spec"
  | .loopSpecNotList form => form ++ " requires a (var expr) spec"
  | .loopSpecSize form => form ++ " spec must be (var expr [result])"
  | .loopVariable form value => form ++ " variable must be a Symbol, got " ++ value
  | .whileWithoutTest => "while requires a test expression"
  | .spliceOutsideList => "Unquote-splicing is only valid inside a list"
  | .unquoteOutside form => form ++ " is not valid outside of quasiquote"
  | .stepPlace form value => form ++ " place must be a symbol, got " ++ value
  | .stated message => message

/-- How many arguments a built-in takes. -/
inductive ArgumentCount where
  | exactly (n : Nat)
  | atLeast (n : Nat)
  | between (least greatest : Nat)
deriving DecidableEq, Inhabited

namespace ArgumentCount

/-- The wording of a count. -/
def text : ArgumentCount → String
  | .exactly n => "exactly " ++ toString n
  | .atLeast n => "at least " ++ toString n
  | .between least greatest => toString least ++ " to " ++ toString greatest

/-- Whether `n` arguments are right. -/
def admits : ArgumentCount → Nat → Bool
  | .exactly m, n => n = m
  | .atLeast m, n => m ≤ n
  | .between least greatest, n => least ≤ n && n ≤ greatest

end ArgumentCount

/-- Why a number of arguments is wrong. -/
inductive ArityFault where
  | builtin (name : String) (expected : ArgumentCount) (got : Nat)
  | tooFew (label : String) (least got : Nat)
  | tooMany (label : String) (greatest got : Nat)
  | keyword (name : String)
  | condition
  | setPairs
  | functionParts
  | macroParts
  | parameterList
  | quote
  | quasiquote
  | returnValue
  | testMissing (form : String)
  | step (form : String)
deriving DecidableEq, Inhabited

/-- The wording of an arity fault. -/
def ArityFault.message : ArityFault → String
  | .builtin name expected got =>
    name ++ " expects " ++ expected.text ++ " argument(s), got " ++ toString got
  | .tooFew label least got =>
    label ++ ": expected at least " ++ toString least ++ " argument(s), got " ++ toString got
  | .tooMany label greatest got =>
    label ++ ": expected at most " ++ toString greatest ++ " argument(s), got " ++ toString got
  | .keyword name => name ++ ": expected a map and an optional default"
  | .condition => "if requires a condition, a then-expression and an optional else"
  | .setPairs => "setq requires pairs of arguments: (setq var value ...)"
  | .functionParts => "defn requires a name and a parameter list"
  | .macroParts => "defmacro requires a name, a parameter list and a body"
  | .parameterList => "fn requires at least a parameter list"
  | .quote => "quote expects exactly 1 argument"
  | .quasiquote => "quasiquote expects exactly 1 argument"
  | .returnValue => "return accepts at most one argument"
  | .testMissing form => form ++ " requires a test form"
  | .step form => form ++ " expects a variable and an optional delta"

/-- Why a value has the wrong shape. `got` is the name of the type of the value. -/
inductive TypeFault where
  | argument (function : String) (index : Nat) (expected got : String)
  | improperList (shown : String)
  | spliceNotList (got : String)
  | loopNeedsList (form got : String)
  | loopCount (got : String)
  | incomparable (left right : String)
deriving DecidableEq, Inhabited

namespace TypeFault

/-- The wording of a type fault. -/
def message : TypeFault → String
  | .argument function index expected got =>
    function ++ ": argument " ++ toString index ++ " must be " ++ expected ++ ", got " ++ got
  | .improperList shown => "Improper list: " ++ shown
  | .spliceNotList got => "Unquote-splicing must produce a list, got " ++ got
  | .loopNeedsList form got => form ++ " requires a list, got " ++ got
  | .loopCount got => "dotimes count must be an integer, got " ++ got
  | .incomparable left right => "sort: cannot compare " ++ left ++ " with " ++ right

/-- The function or form that complains. -/
def function? : TypeFault → Option String
  | .argument function _ _ _ => some function
  | .improperList _ => none
  | .spliceNotList _ => some "unquote-splicing"
  | .loopNeedsList form _ => some form
  | .loopCount _ => some "dotimes"
  | .incomparable _ _ => some "sort"

/-- The index of the argument at fault. -/
def argumentIndex? : TypeFault → Option Nat
  | .argument _ index _ _ => some index
  | .improperList _ => none
  | .spliceNotList _ => some 0
  | .loopNeedsList _ _ => some 1
  | .loopCount _ => some 1
  | .incomparable _ _ => some 0

end TypeFault

/-- Why a member of a host object cannot be reached. -/
inductive AccessFault where
  | hidden
  | onNil
  | missing (typeName : String)
  | accessFailed (typeName : String) (cause : HostFault)
  | callFailed (typeName : String) (cause : HostFault)
  | notAMethod (typeName : String)
  /-- The host object refused with a message of its own. -/
  | refused (message : String)
deriving DecidableEq, Inhabited

/-- The wording of an access fault for the member with the given name. -/
def AccessFault.message (member : String) : AccessFault → String
  | .hidden => "Member ." ++ member ++ " is not accessible"
  | .onNil => "Cannot access ." ++ member ++ " on nil"
  | .missing typeName => typeName ++ " has no member ." ++ member
  | .accessFailed typeName cause =>
    "Accessing ." ++ member ++ " on " ++ typeName ++ " failed: " ++ cause.message
  | .callFailed typeName cause =>
    "Calling ." ++ member ++ " on " ++ typeName ++ " failed: " ++ cause.message
  | .notAMethod typeName =>
    "." ++ member ++ " on " ++ typeName ++ " is not a method but got arguments"
  | .refused message => message

/-- The cause of an error of the language. -/
inductive Fault where
  | reading (f : SyntaxFault)
  | unbound (name : String)
  | form (f : FormFault)
  | arity (f : ArityFault)
  | divisionByZero
  | moduloByZero
  | type (f : TypeFault)
  | outOfRange (index : String)
  /-- An index error that the host raised. -/
  | indexStated (message : String)
  | access (member : String) (f : AccessFault)
  /-- A built-in function failed for a reason of the host. -/
  | host (function : String) (cause : HostFault)
  | tooDeep
deriving DecidableEq, Inhabited

namespace Fault

/-- The wording of a cause. -/
def message : Fault → String
  | .reading f => f.message
  | .unbound name => "Unbound symbol " ++ name
  | .form f => f.message
  | .arity f => f.message
  | .divisionByZero => "Division by zero"
  | .moduloByZero => "Modulo by zero"
  | .type f => f.message
  | .outOfRange index => "nth: index " ++ index ++ " out of range"
  | .indexStated message => message
  | .access member f => f.message member
  | .host function cause => function ++ " failed: " ++ cause.kind.name ++ ": " ++ cause.message
  | .tooDeep => "Maximum evaluation depth exceeded"

/-- The kind of error that a report names. -/
def kindName : Fault → String
  | .reading _ => "SyntaxError"
  | .unbound _ => "UnboundSymbolError"
  | .form _ => "EvalError"
  | .arity _ => "ArityError"
  | .divisionByZero => "ArithmeticError"
  | .moduloByZero => "ArithmeticError"
  | .type _ => "TypeError"
  | .outOfRange _ => "IndexError"
  | .indexStated _ => "IndexError"
  | .access _ _ => "HostAccessError"
  | .host _ _ => "HostError"
  | .tooDeep => "StackOverflow"

/-- The class of errors in which the host sorts a cause. -/
def className : Fault → String
  | .unbound _ => "ScriptLispUnboundSymbol"
  | f => "ScriptLisp" ++ f.kindName

/-- Whether a member of a host object could not be reached. -/
def isAccess : Fault → Bool
  | .access _ _ => true
  | _ => false

/-- The failure of the host behind a cause. -/
def hostCause? : Fault → Option HostFault
  | .host _ cause => some cause
  | .access _ (.accessFailed _ cause) => some cause
  | .access _ (.callFailed _ cause) => some cause
  | _ => none

end Fault

/-- An error of the language: its cause and the place that is blamed, if one is known. -/
structure Error where
  fault : Fault
  pos : Option Pos
deriving DecidableEq, Inhabited

namespace Error

/-- The error with a place, unless it has one already: the innermost form wins. -/
def placedAt (e : Error) (pos : Option Pos) : Error :=
  match e.pos with
  | some _ => e
  | none => { e with pos := pos }

/-- The report of an error: its kind, its place and its message. -/
def report (e : Error) : String :=
  match e.pos with
  | none => e.fault.kindName ++ ": " ++ e.fault.message
  | some p =>
    e.fault.kindName ++ " at line " ++ toString p.line ++ ", column " ++ toString p.column ++ ": "
      ++ e.fault.message

/-- An error of the language that host code came to, as a failure of the host. -/
def asHostFault (e : Error) : HostFault := .raised (.other e.fault.className) e.report

end Error

end TemplateLisp
