import StubTree.Calendar
import StubTree.CommandLine.Paths
import StubTree.CommandLine.Request
import StubTree.CommandLine.Run
import StubTree.CommandLine.Usage
import StubTree.CommandLine.Words
import StubTree.Disk
import StubTree.Document.Basic
import StubTree.Document.Graph
import StubTree.Document.Json
import StubTree.Document.Serialize
import StubTree.Document.SetOrder
import StubTree.Document.Shape
import StubTree.Document.Text
import StubTree.Fault
import StubTree.Generation
import StubTree.Keyed
import StubTree.Library
import StubTree.Loader
import StubTree.Main
import StubTree.Manifest.Basic
import StubTree.Manifest.Load
import StubTree.Manifest.Schema
import StubTree.Manifest.TypeRef
import StubTree.Namespace
import StubTree.Number.Binary64
import StubTree.Number.Decimal
import StubTree.Number.Numeral
import StubTree.Number.Reading
import StubTree.Options
import StubTree.Options.Load
import StubTree.Path
import StubTree.Proofs.Distinct
import StubTree.Proofs.Keyed
import StubTree.Proofs.Loader.Calls
import StubTree.Proofs.Loader.Growth
import StubTree.Proofs.Manifest.Accepted
import StubTree.Proofs.Manifest.Reading
import StubTree.Proofs.Path
import StubTree.Proofs.Registry.Laws
import StubTree.Proofs.Registry.Log
import StubTree.Proofs.Registry.Refinement
import StubTree.Proofs.Session.Rounds
import StubTree.Registry
import StubTree.Report.Elapsed
import StubTree.Report.Format
import StubTree.Report.Inspection
import StubTree.Report.Listing
import StubTree.Report.Sink
import StubTree.Session.Basic
import StubTree.Session.Build
import StubTree.Session.Drain
import StubTree.Stack
import StubTree.Stub.Directory
import StubTree.Stub.Identifier
import StubTree.Stub.Imports
import StubTree.Stub.Rendering
import StubTree.Stub.Text
import StubTree.Text.Ansi
import StubTree.Text.Blank
import StubTree.Text.Lines
import StubTree.Text.Pieces
import StubTree.Text.Printable
import StubTree.Text.Quoted
import StubTree.Text.Similarity
import StubTree.Text.Sorted
import StubTree.Text.Utf8
import StubTree.Yaml.Character
import StubTree.Yaml.Fault
import StubTree.Yaml.Merge
import StubTree.Yaml.Node
import StubTree.Yaml.Scalar
import StubTree.Yaml.Stream
import StubTree.Yaml.Tag
import StubTree.Yaml.Token
import StubTree.Yaml.Token.Lexer
import StubTree.Yaml.Token.Property
import StubTree.Yaml.Token.Scalar
import StubTree.Yaml.Value
import StubTree.Yaml.Writer
import StubTree.Proofs.Loader.Linking
import StubTree.Proofs.Disk
import StubTree.Proofs.Session.Reached
import StubTree.Proofs.Generation
import StubTree.Proofs.Session.Selection
import StubTree.Proofs.Session.UpToDate
import StubTree.Proofs.Library.References
import StubTree.Proofs.Stub.Meeting
import StubTree.Proofs.Session.Closure
import StubTree.Proofs.Loader.Failure
import StubTree.Proofs.Disk.Walks
import StubTree.Proofs.Stub.Directory
import StubTree.Proofs.Session.Places
import StubTree.Proofs.Session.Following
import StubTree.Proofs.Session.Targets
import StubTree.Proofs.Session.Restriction
import StubTree.Proofs.Library.Within
import StubTree.Proofs.Loader.Passage
import StubTree.Proofs.Loader.Directory
import StubTree.Proofs.Session.OneDirectory
import StubTree.Proofs.Session.TargetOrder
import StubTree.Proofs.Session.Union
import StubTree.Proofs.Session.Termination
import StubTree.Proofs.Session.Reuse
import StubTree.Proofs.Session.TargetDirectories
import StubTree.Proofs.Session.Ending
import StubTree.Proofs.Session.Barrier
import StubTree.Proofs.Session.ImportClosure
import StubTree.Proofs.Library.Search
import StubTree.Proofs.Stub.Registration
import StubTree.Proofs.Text.Legible
import StubTree.Proofs.Document.Legible
import StubTree.Proofs.Disk.Overlooked
import StubTree.Proofs.CommandLine.Report
import StubTree.Proofs.Document.Literal
import StubTree.Proofs.Manifest.Faults
import StubTree.Proofs.Options.Faults
import StubTree.Proofs.Loader.Exhaustion
import StubTree.Proofs.Session.Exhaustion
import StubTree.Proofs.Loader.Breaking
import StubTree.Proofs.CommandLine.Reading
import StubTree.Proofs.Session.Ledger
import StubTree.Proofs.Stub.Imports
import StubTree.Proofs.Stub.Overloads
import StubTree.Proofs.Session.Names
import StubTree.Proofs.Manifest.Names
import StubTree.Proofs.Loader.Ending
import StubTree.Proofs.Session.Enumeration
import StubTree.Proofs.Session.WholeStubs
import StubTree.Proofs.Text.Blank
import StubTree.Proofs.Manifest.TypeRef
import StubTree.Proofs.Generation.Tally
import StubTree.Proofs.Loader.Caching
import StubTree.Proofs.Options.Settings
import StubTree.Proofs.Options.Merging
import StubTree.Proofs.Options.Laws
import StubTree.Proofs.Text.ControlSequences
import StubTree.Proofs.CommandLine.PlainReport
import StubTree.Proofs.Number.Digits
import StubTree.Proofs.Number.ReadingBack
import StubTree.Proofs.Number.Rounding
import StubTree.Proofs.Report.Elapsed
