import ScriptFuzz.Bytes.Buffer
import ScriptFuzz.Bytes.Digest
import ScriptFuzz.Bytes.Hex
import ScriptFuzz.Bytes.Order
import ScriptFuzz.Campaign.Basic
import ScriptFuzz.Campaign.Rehearsal
import ScriptFuzz.Campaign.Target
import ScriptFuzz.Campaign.Walk
import ScriptFuzz.Channel.Basic
import ScriptFuzz.Channel.Error
import ScriptFuzz.Channel.Layout
import ScriptFuzz.Channel.Memory
import ScriptFuzz.Config
import ScriptFuzz.Decimal.Nearest
import ScriptFuzz.Decimal.Shortest
import ScriptFuzz.Diagnostic
import ScriptFuzz.Expr.Basic
import ScriptFuzz.Expr.Outline
import ScriptFuzz.Expr.Parser
import ScriptFuzz.FileFuzz.Basic
import ScriptFuzz.Finding.Basic
import ScriptFuzz.Finding.Store
import ScriptFuzz.Folder.Basic
import ScriptFuzz.Folder.Path
import ScriptFuzz.Host.Basic
import ScriptFuzz.Host.Function
import ScriptFuzz.Host.Stubs
import ScriptFuzz.Machine.Basic
import ScriptFuzz.Machine.Error
import ScriptFuzz.Machine.Instruction
import ScriptFuzz.Main
import ScriptFuzz.Mutator.Basic
import ScriptFuzz.Mutator.Counter
import ScriptFuzz.Mutator.Dictionary
import ScriptFuzz.Mutator.FileWalk
import ScriptFuzz.Mutator.LengthWalk
import ScriptFuzz.Mutator.Pool
import ScriptFuzz.Position
import ScriptFuzz.Proofs.Campaign.Runs
import ScriptFuzz.Proofs.Templates.Serialization
import ScriptFuzz.Proofs.Tokens.Printing
import ScriptFuzz.Proofs.Campaign.States
import ScriptFuzz.Proofs.Campaign.Trials
import ScriptFuzz.Proofs.Code.Declared
import ScriptFuzz.Proofs.Code.Safety
import ScriptFuzz.Proofs.Code.Scripts
import ScriptFuzz.Proofs.Code.Simulation
import ScriptFuzz.Proofs.Code.Stack
import ScriptFuzz.Proofs.Code.Translation
import ScriptFuzz.Proofs.Compilation
import ScriptFuzz.Proofs.Language.Code
import ScriptFuzz.Proofs.Language.Grammar
import ScriptFuzz.Proofs.Language.Meaning
import ScriptFuzz.Proofs.Language.Names
import ScriptFuzz.Proofs.Language.Rules
import ScriptFuzz.Proofs.Language.Tree
import ScriptFuzz.Proofs.Reading.Derivations
import ScriptFuzz.Proofs.Reading.Expressions
import ScriptFuzz.Proofs.Reading.Functions
import ScriptFuzz.Proofs.Reading.Result
import ScriptFuzz.Proofs.Reading.Scopes
import ScriptFuzz.Proofs.Reading.Scripts
import ScriptFuzz.Proofs.Reading.Templates
import ScriptFuzz.Script.Code
import ScriptFuzz.Script.Parser
import ScriptFuzz.Script.Scope
import ScriptFuzz.Script.Summary
import ScriptFuzz.Script.Syntax
import ScriptFuzz.Template.Basic
import ScriptFuzz.Template.Builder
import ScriptFuzz.Template.Lowering
import ScriptFuzz.Text.Blank
import ScriptFuzz.Text.Json
import ScriptFuzz.Text.Printable
import ScriptFuzz.Text.Quoted
import ScriptFuzz.Text.Utf8
import ScriptFuzz.Token.Basic
import ScriptFuzz.Token.Cursor
import ScriptFuzz.Token.Lexer
import ScriptFuzz.Token.Scan
import ScriptFuzz.Toml.Document
import ScriptFuzz.Toml.Scalar
import ScriptFuzz.Toml.Text
import ScriptFuzz.Toml.Tree
import ScriptFuzz.Toml.Value
import ScriptFuzz.Value.Arith
import ScriptFuzz.Value.Basic
import ScriptFuzz.WireType
import ScriptFuzz.Proofs.Expressions.Grammar
import ScriptFuzz.Proofs.Expressions.Reading
import ScriptFuzz.Proofs.Expressions.RoundTrip
import ScriptFuzz.Proofs.Expressions.Tags
import ScriptFuzz.Proofs.Templates.Translation
import ScriptFuzz.Proofs.Templates.FrontEnds
import ScriptFuzz.Proofs.Campaign.Talks
import ScriptFuzz.Proofs.Campaign.Visits
import ScriptFuzz.Proofs.Campaign.Waiting
import ScriptFuzz.Proofs.Campaign.Recording
import ScriptFuzz.Proofs.Campaign.Books
import ScriptFuzz.Proofs.Campaign.Held
import ScriptFuzz.Proofs.Bytes.Order
import ScriptFuzz.Proofs.Channel.Sources
import ScriptFuzz.Proofs.Text.Utf8
import ScriptFuzz.Proofs.Findings.Deduplication
import ScriptFuzz.Proofs.Findings.Outages
import ScriptFuzz.Proofs.Layouts.ReadBack
import ScriptFuzz.Proofs.Layouts.Exactness
import ScriptFuzz.Proofs.Mutators.Lifecycle
import ScriptFuzz.Proofs.Listing.Injectivity
import ScriptFuzz.Proofs.Listing.Lines
import ScriptFuzz.Proofs.Listing.Pieces
import ScriptFuzz.Proofs.Listing.Pools
import ScriptFuzz.Proofs.Listing.Quoted
import ScriptFuzz.Proofs.FileFuzz.Attempts
import ScriptFuzz.Proofs.FileFuzz.Coverage
import ScriptFuzz.Proofs.FileFuzz.Folders
import ScriptFuzz.Proofs.FileFuzz.Runs
import ScriptFuzz.Proofs.FileFuzz.Variants
import ScriptFuzz.Proofs.FileFuzz.Walks
import ScriptFuzz.Proofs.Folders.Paths
import ScriptFuzz.Proofs.Channel.Lines
import ScriptFuzz.Proofs.Tokens.Slices
import ScriptFuzz.Proofs.Tokens.Lookahead
import ScriptFuzz.Proofs.Faults.Reports
import ScriptFuzz.Proofs.Faults.Scripts
import ScriptFuzz.Proofs.Faults.Expressions
import ScriptFuzz.Proofs.Faults.Sources
import ScriptFuzz.Proofs.Tokens.Joining
import ScriptFuzz.Proofs.Reading.Extension
import ScriptFuzz.Proofs.Value.Arithmetic
import ScriptFuzz.Proofs.Expressions.Calls
import ScriptFuzz.Proofs.Templates.Origins
import ScriptFuzz.Proofs.Templates.Constants
import ScriptFuzz.Proofs.Mutators.Signatures
import ScriptFuzz.Proofs.Channel.Simulation
import ScriptFuzz.Proofs.Channel.Interchange
import ScriptFuzz.Proofs.Channel.HostCalls
import ScriptFuzz.Proofs.Templates.Editing
import ScriptFuzz.Proofs.Tokens.Readings
import ScriptFuzz.Proofs.Tokens.Strings
import ScriptFuzz.Proofs.Tokens.Integers
import ScriptFuzz.Proofs.Templates.ArraySizes
import ScriptFuzz.Proofs.Layouts.Exposure
import ScriptFuzz.Proofs.Bytes.Coding
import ScriptFuzz.Proofs.Tokens.Interning
