import Ecma51.Builtin
import Ecma51.Calendar.Fields
import Ecma51.Calendar.Format
import Ecma51.Calendar.Parse
import Ecma51.Calendar.Rounded
import Ecma51.Calendar.TimeValue
import Ecma51.CallStack
import Ecma51.Code.Eval
import Ecma51.Code.Primitive
import Ecma51.Code.Tree
import Ecma51.CommandLine.Options
import Ecma51.CommandLine.Perform
import Ecma51.Config
import Ecma51.Environment
import Ecma51.Fault
import Ecma51.Heap.Basic
import Ecma51.Heap.Chain
import Ecma51.Heap.Graph
import Ecma51.Heap.Own
import Ecma51.Json.Reader
import Ecma51.Json.Writer
import Ecma51.Library
import Ecma51.Library.Array
import Ecma51.Library.Catalogue
import Ecma51.Library.Date
import Ecma51.Library.Error
import Ecma51.Library.Function
import Ecma51.Library.Global
import Ecma51.Library.Host
import Ecma51.Library.Json
import Ecma51.Library.Math
import Ecma51.Library.Number
import Ecma51.Library.Object
import Ecma51.Library.RegExp
import Ecma51.Library.String
import Ecma51.Machine
import Ecma51.Main
import Ecma51.Number.Arithmetic
import Ecma51.Number.Decimal
import Ecma51.Number.Double
import Ecma51.Number.Format
import Ecma51.Number.Integral
import Ecma51.Number.Literal
import Ecma51.Number.Radix
import Ecma51.Object
import Ecma51.Operation.Access
import Ecma51.Operation.Arguments
import Ecma51.Operation.Call
import Ecma51.Operation.Compare
import Ecma51.Operation.Construct
import Ecma51.Operation.Describe
import Ecma51.Operation.Method
import Ecma51.Operation.Operator
import Ecma51.Operation.Refusing
import Ecma51.Operation.RegExp
import Ecma51.Operation.Scope
import Ecma51.Pattern.Automaton
import Ecma51.Pattern.Basic
import Ecma51.Pattern.Class
import Ecma51.Pattern.Form
import Ecma51.Pattern.Octets
import Ecma51.Pattern.Program
import Ecma51.Pattern.Reader
import Ecma51.Pattern.Search
import Ecma51.Pattern.Shape
import Ecma51.Pattern.Size
import Ecma51.Pattern.Token
import Ecma51.Pattern.Walk
import Ecma51.Pattern.Words
import Ecma51.Program
import Ecma51.Proofs.Activation
import Ecma51.Proofs.Allocation
import Ecma51.Proofs.ArrayLength
import Ecma51.Proofs.Attributes
import Ecma51.Proofs.Balance
import Ecma51.Proofs.Built
import Ecma51.Proofs.BuiltLibrary
import Ecma51.Proofs.Collection
import Ecma51.Proofs.Edit
import Ecma51.Proofs.Evolution
import Ecma51.Proofs.Lifetime
import Ecma51.Proofs.Made
import Ecma51.Proofs.Parameters
import Ecma51.Proofs.Programs
import Ecma51.Proofs.PropertyTable
import Ecma51.Proofs.PushedCall
import Ecma51.Proofs.Reachability
import Ecma51.Proofs.SharedArguments
import Ecma51.Proofs.SoundArrays
import Ecma51.Proofs.Store
import Ecma51.Property.Descriptor
import Ecma51.Property.Key
import Ecma51.Property.StoredKey
import Ecma51.Property.Table
import Ecma51.Realm
import Ecma51.Sorting.HeapSort
import Ecma51.Text.Atom
import Ecma51.Text.Basic
import Ecma51.Text.Case
import Ecma51.Text.CaseTable
import Ecma51.Text.Offsets
import Ecma51.Text.Scalar
import Ecma51.Text.Unit
import Ecma51.Text.Uri
import Ecma51.Text.Utf8
import Ecma51.Text.WordTable
import Ecma51.Value
import Ecma51.Value.Dump
import Ecma51.Value.Packed
import Ecma51.Proofs.JsonGrammar
import Ecma51.Proofs.JsonParts
import Ecma51.Proofs.JsonReading
import Ecma51.Proofs.JsonValues
import Ecma51.Proofs.NumberText
import Ecma51.Proofs.JsonWriting
import Ecma51.Proofs.JsonShown
import Ecma51.Proofs.JsonRoundTrip
import Ecma51.Proofs.UriRuns
import Ecma51.Proofs.UriEscapes
import Ecma51.Proofs.Walk
import Ecma51.Proofs.Links
import Ecma51.Proofs.Relinked
import Ecma51.Proofs.Composed
import Ecma51.Proofs.Orderly
import Ecma51.Proofs.DirectEval
import Ecma51.Proofs.Reporting
import Ecma51.Proofs.Settling
import Ecma51.Proofs.Truncation
import Ecma51.Proofs.Refusals
import Ecma51.Proofs.RefusalSites
import Ecma51.Proofs.Frozen
import Ecma51.Proofs.Freezing
import Ecma51.Proofs.Enumeration
import Ecma51.Proofs.KeyOrder
import Ecma51.Proofs.Assignment
import Ecma51.Proofs.Restating
import Ecma51.Proofs.Uncovering
import Ecma51.Proofs.HeapSort
import Ecma51.Proofs.Sorting
import Ecma51.Proofs.ArrayView
import Ecma51.Proofs.ArraySort
import Ecma51.Proofs.ArraySplice
import Ecma51.Proofs.ArrayEnds
import Ecma51.Proofs.ArrayCopies
import Ecma51.Proofs.CallDepth
import Ecma51.Proofs.JsonAccepted
import Ecma51.Proofs.JsonGraphs
import Ecma51.Proofs.JsonCycles
import Ecma51.Proofs.JsonStringifier
import Ecma51.Proofs.Accesses
import Ecma51.Proofs.Visits
import Ecma51.Proofs.LengthReading
import Ecma51.Proofs.BoundFunctions
import Ecma51.Proofs.NameAssignment
import Ecma51.Proofs.JsonReviving
import Ecma51.Proofs.JsonRevivedTexts
import Ecma51.Proofs.Splitting
import Ecma51.Proofs.LastIndex
import Ecma51.Proofs.GlobalMatches
import Ecma51.Proofs.Templates
import Ecma51.Proofs.CalendarDates
import Ecma51.Proofs.WholeArithmetic
import Ecma51.Proofs.WholeQuotients
import Ecma51.Proofs.TimeValues
import Ecma51.Proofs.TimesKept
import Ecma51.Proofs.TimeComposition
import Ecma51.Proofs.RoundedFields
import Ecma51.Proofs.TimeFields
import Ecma51.Proofs.WholeText
import Ecma51.Proofs.KeyAgreement
import Ecma51.Proofs.StoredKeys
import Ecma51.Proofs.LocalTime
import Ecma51.Proofs.DateReaders
import Ecma51.Proofs.DateTexts
import Ecma51.Proofs.AtomCopies
import Ecma51.Proofs.DigitValues
import Ecma51.Proofs.DecimalRounding
import Ecma51.Proofs.RoundedNotations
import Ecma51.Proofs.NumericGrammar
import Ecma51.Proofs.NumericReading
import Ecma51.Proofs.LayoutTexts
import Ecma51.Proofs.NearestDouble
import Ecma51.Proofs.NumericTexts
import Ecma51.Proofs.CodePoints
import Ecma51.Proofs.LooseEquality
import Ecma51.Proofs.RadixTexts
import Ecma51.Proofs.HexRounding
import Ecma51.Proofs.PackedValues
import Ecma51.Proofs.ShownTexts
import Ecma51.Proofs.SlotPlaces
import Ecma51.Proofs.MatchBounds
import Ecma51.Proofs.OctetSearch
