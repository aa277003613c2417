import TemplateLisp.Builtin.Argument
import TemplateLisp.Builtin.Arithmetic
import TemplateLisp.Builtin.Basic
import TemplateLisp.Builtin.Comparison
import TemplateLisp.Builtin.Map
import TemplateLisp.Builtin.Pair
import TemplateLisp.Builtin.Sequence
import TemplateLisp.Builtin.Text
import TemplateLisp.CommandLine.Arguments
import TemplateLisp.CommandLine.Program
import TemplateLisp.DataFile
import TemplateLisp.Datum.Basic
import TemplateLisp.Datum.Printer
import TemplateLisp.Datum.Shown
import TemplateLisp.Environment
import TemplateLisp.Eval.Apply
import TemplateLisp.Eval.Basic
import TemplateLisp.Eval.Eval
import TemplateLisp.Eval.Expand
import TemplateLisp.Eval.Loop
import TemplateLisp.Eval.Quasiquote
import TemplateLisp.Eval.SpecialForm
import TemplateLisp.Fault
import TemplateLisp.Files
import TemplateLisp.Host.Code
import TemplateLisp.Host.Member
import TemplateLisp.Host.Sample
import TemplateLisp.Interpreter
import TemplateLisp.Main
import TemplateLisp.Number.Basic
import TemplateLisp.Number.Decimal
import TemplateLisp.Number.Double
import TemplateLisp.Number.IntegerText
import TemplateLisp.Number.Rounding
import TemplateLisp.Number.Shortest
import TemplateLisp.ParameterList
import TemplateLisp.Prelude
import TemplateLisp.Reader.Atom
import TemplateLisp.Reader.Parser
import TemplateLisp.Reader.StringLiteral
import TemplateLisp.Reader.Token
import TemplateLisp.Room
import TemplateLisp.Run
import TemplateLisp.Sequence
import TemplateLisp.Settings
import TemplateLisp.Sorting
import TemplateLisp.Stop
import TemplateLisp.Symbol
import TemplateLisp.Text.Blank
import TemplateLisp.Text.CamelCase
import TemplateLisp.Text.Case
import TemplateLisp.Text.CaseTable
import TemplateLisp.Text.CharSet
import TemplateLisp.Text.Digit
import TemplateLisp.Text.Lines
import TemplateLisp.Text.Printable
import TemplateLisp.Text.Quoted
import TemplateLisp.Text.Word
import TemplateLisp.Value
import TemplateLisp.World.Basic
import TemplateLisp.World.Equality
import TemplateLisp.World.Key
import TemplateLisp.World.Scope
import TemplateLisp.World.Spine
import TemplateLisp.World.TypeName
import TemplateLisp.World.Unfold
import TemplateLisp.Proofs.StepOrder
import TemplateLisp.Proofs.Fuel
import TemplateLisp.Proofs.Trampoline
import TemplateLisp.Proofs.Grammar
import TemplateLisp.Proofs.Denotation
import TemplateLisp.Proofs.ParserComplete
import TemplateLisp.Proofs.ParserSound
import TemplateLisp.Proofs.Lexing
import TemplateLisp.Proofs.Reading
import TemplateLisp.Proofs.Spelling
import TemplateLisp.Proofs.PrintedData
import TemplateLisp.Proofs.RoundTrip
import TemplateLisp.Proofs.PlainValues
import TemplateLisp.Proofs.PrintedValues
import TemplateLisp.Proofs.Composition
import TemplateLisp.Proofs.ClosedProperties
import TemplateLisp.Proofs.Calls
import TemplateLisp.Proofs.Transcript
import TemplateLisp.Proofs.Rendering
import TemplateLisp.Proofs.WorldChanges
import TemplateLisp.Proofs.Reserves
import TemplateLisp.Proofs.Invariants
import TemplateLisp.Proofs.Watches
import TemplateLisp.Proofs.InvariantHost
import TemplateLisp.Proofs.InvariantCalls
import TemplateLisp.Proofs.InvariantEvaluation
import TemplateLisp.Proofs.DataKept
import TemplateLisp.Proofs.Sessions
import TemplateLisp.Proofs.Acyclicity
import TemplateLisp.Proofs.Scopes
import TemplateLisp.Proofs.CallPaths
import TemplateLisp.Proofs.Places
import TemplateLisp.Proofs.LexingParts
import TemplateLisp.Proofs.ParserPlaces
import TemplateLisp.Proofs.Concatenation
import TemplateLisp.Proofs.Keys
import TemplateLisp.Proofs.SourcePlaces
import TemplateLisp.Proofs.MapUpdates
import TemplateLisp.Proofs.ErrorPlaces
import TemplateLisp.Proofs.Equality
import TemplateLisp.Proofs.UnambiguousMaps
import TemplateLisp.Proofs.Seclusion
import TemplateLisp.Proofs.Outcomes
import TemplateLisp.Proofs.ReservesKept
import TemplateLisp.Proofs.FormOutcomes
import TemplateLisp.Proofs.TailContexts
import TemplateLisp.Proofs.Templates
import TemplateLisp.Proofs.TemplateRuns
import TemplateLisp.Proofs.TemplateSteps
import TemplateLisp.Proofs.TemplateCopies
import TemplateLisp.Proofs.Parameters
import TemplateLisp.Proofs.KeywordLookups
import TemplateLisp.Proofs.NewMaps
import TemplateLisp.Proofs.ImproperForms
import TemplateLisp.Proofs.Elements
import TemplateLisp.Proofs.Binding
import TemplateLisp.Proofs.CallBacks
import TemplateLisp.Proofs.Accessors
import TemplateLisp.Proofs.Partition
import TemplateLisp.Proofs.Assignment
import TemplateLisp.Proofs.Blame
import TemplateLisp.Proofs.TypeErrors
import TemplateLisp.Proofs.StableSort
import TemplateLisp.Proofs.SortedSequences
import TemplateLisp.Proofs.CallTraces
import TemplateLisp.Proofs.LocalScopes
import TemplateLisp.Proofs.PreludeCode
import TemplateLisp.Proofs.PreludeSearches
import TemplateLisp.Proofs.StringBodies
import TemplateLisp.Proofs.ExactQuotients
import TemplateLisp.Proofs.EqualitiesAgree
import TemplateLisp.Proofs.SnakeCase
import TemplateLisp.Proofs.HiddenMembers
import TemplateLisp.Proofs.PreludeRemovals
import TemplateLisp.Proofs.LoadedPrelude
import TemplateLisp.Proofs.PreludeFunctions
