import JumpScript.CommandLine.Flags
import JumpScript.CommandLine.Session
import JumpScript.Console
import JumpScript.Diagnostic
import JumpScript.Fault
import JumpScript.Json.Basic
import JumpScript.Json.Read
import JumpScript.Library.Arguments
import JumpScript.Library.Arrays
import JumpScript.Library.Control
import JumpScript.Library.Conversion
import JumpScript.Library.Documents
import JumpScript.Library.Mathematics
import JumpScript.Library.Native
import JumpScript.Library.Registry
import JumpScript.Library.Streams
import JumpScript.Library.Strings
import JumpScript.Locale.Basic
import JumpScript.Locale.Lookup
import JumpScript.Locale.Signs
import JumpScript.Locale.Subtag
import JumpScript.Locale.Tag
import JumpScript.Log.Line
import JumpScript.Log.Moment
import JumpScript.Log.Record
import JumpScript.Machine.Basic
import JumpScript.Machine.Input
import JumpScript.Machine.Journal
import JumpScript.Machine.Run
import JumpScript.Machine.Step
import JumpScript.Main
import JumpScript.Number.Decimal
import JumpScript.Number.Double
import JumpScript.Number.Exponential
import JumpScript.Number.Integer
import JumpScript.Number.Numeral
import JumpScript.Number.Positional
import JumpScript.Number.Power
import JumpScript.Number.Radix
import JumpScript.Settings.Basic
import JumpScript.Settings.Load
import JumpScript.Sorting
import JumpScript.Statement.Basic
import JumpScript.Statement.Parse
import JumpScript.Table
import JumpScript.Text.Blank
import JumpScript.Text.Bytes
import JumpScript.Text.LetterCase
import JumpScript.Text.Printable
import JumpScript.Text.Quoted
import JumpScript.Text.Utf8
import JumpScript.Token.Basic
import JumpScript.Token.Import
import JumpScript.Token.Scan
import JumpScript.Value.Arithmetic
import JumpScript.Value.Basic
import JumpScript.Value.Heap
import JumpScript.Value.Kind
import JumpScript.World.Address
import JumpScript.World.Basic
import JumpScript.World.FileFence
import JumpScript.World.Files
import JumpScript.World.HostLiteral
import JumpScript.World.Path
import JumpScript.World.Web
import JumpScript.Yaml.Basic
import JumpScript.Yaml.Decode
import JumpScript.Yaml.Document
import JumpScript.Yaml.Layout
import JumpScript.Yaml.Meaning
import JumpScript.Yaml.Tape
import JumpScript.Yaml.Token
import JumpScript.Proofs.Outcomes
import JumpScript.Proofs.Library.Arguments
import JumpScript.Proofs.Sorting
import JumpScript.Proofs.Value.Footprint
import JumpScript.Proofs.Value.Region
import JumpScript.Proofs.Number.Bits
import JumpScript.Proofs.Number.Digits
import JumpScript.Proofs.Number.Rounding
import JumpScript.Proofs.Number.FloatLiteral
import JumpScript.Proofs.Statement.Grammar
import JumpScript.Proofs.Token.Lexemes
import JumpScript.Proofs.Statement.RoundTrip
import JumpScript.Proofs.Token.Newline
import JumpScript.Proofs.Token.Inclusion
import JumpScript.Proofs.Machine.Labels
import JumpScript.Proofs.Machine.Continuation
import JumpScript.Proofs.Machine.Frame
import JumpScript.Proofs.Machine.Turns
import JumpScript.Proofs.Machine.Gas
import JumpScript.Proofs.Machine.Refusal
import JumpScript.Proofs.Machine.Control
import JumpScript.Proofs.Machine.Calls
import JumpScript.Proofs.Machine.Signature
import JumpScript.Proofs.Machine.Intact
import JumpScript.Proofs.Text.Pieces
import JumpScript.Proofs.World.Paths
import JumpScript.Proofs.World.Fence
import JumpScript.Proofs.World.Fetching
import JumpScript.Proofs.Machine.Steering
import JumpScript.Proofs.Machine.Loops
import JumpScript.Proofs.Machine.Landing
import JumpScript.Proofs.Machine.Confinement
import JumpScript.Proofs.Machine.Stored
import JumpScript.Proofs.Token.Extent
import JumpScript.Proofs.Token.Places
import JumpScript.Proofs.Token.ImportTree
import JumpScript.Proofs.Machine.Relations
import JumpScript.Proofs.Token.Faults
import JumpScript.Proofs.Machine.Pipeline
import JumpScript.Proofs.Machine.Bystanders
import JumpScript.Proofs.Machine.Counting
import JumpScript.Proofs.Token.NormalForm
import JumpScript.Proofs.Machine.Alike
import JumpScript.Proofs.Machine.Disabling
import JumpScript.Proofs.Machine.Transparency
import JumpScript.Proofs.Text.Position
import JumpScript.Proofs.Token.Positions
import JumpScript.Proofs.Statement.Positions
import JumpScript.Proofs.Machine.Crossing
import JumpScript.Proofs.World.Containment
import JumpScript.Proofs.Number.Order
import JumpScript.Proofs.Value.Order
import JumpScript.Proofs.Text.Utf8
import JumpScript.Proofs.Json.Strings
import JumpScript.Proofs.Json.Numbers
import JumpScript.Proofs.Json.RoundTrip
import JumpScript.Proofs.Value.Nesting
import JumpScript.Proofs.Value.Copies
import JumpScript.Proofs.Value.Endless
import JumpScript.Proofs.Library.Endings
import JumpScript.Proofs.Machine.Endless
import JumpScript.Proofs.Library.Documents
import JumpScript.Proofs.Sorting.Stability
import JumpScript.Proofs.Value.Sorting
import JumpScript.Proofs.Value.Equality
import JumpScript.Proofs.Token.Lines
import JumpScript.Proofs.Statement.Spans
import JumpScript.Proofs.Json.Tidy
import JumpScript.Proofs.Library.Nesting
import JumpScript.Proofs.Token.Standstill
import JumpScript.Proofs.Library.Formatting
import JumpScript.Proofs.Value.Levels
import JumpScript.Proofs.Library.Encoding
import JumpScript.Proofs.Machine.Mapping
import JumpScript.Proofs.Token.Spacing
import JumpScript.Proofs.Token.Boundaries
import JumpScript.Proofs.Value.Division
import JumpScript.Proofs.Library.Powers
import JumpScript.Proofs.Library.Splitting
import JumpScript.Proofs.Rendering
import JumpScript.Proofs.Token.Concatenation
import JumpScript.Proofs.Token.StringLiterals
import JumpScript.Proofs.Number.Integers
import JumpScript.Proofs.Token.Integers
import JumpScript.Proofs.Library.Conversion
