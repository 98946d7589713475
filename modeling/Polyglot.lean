import Polyglot.Config.Decode
import Polyglot.Config.Limits
import Polyglot.Config.Load
import Polyglot.Config.Settings
import Polyglot.Config.Validate
import Polyglot.Extract.Arguments
import Polyglot.Extract.Chains
import Polyglot.Extract.Declarations
import Polyglot.Extract.Declarations.Python
import Polyglot.Extract.Declarations.Rust
import Polyglot.Extract.Declarations.TypeScript
import Polyglot.Extract.Facts
import Polyglot.Extract.Linkage.Python
import Polyglot.Extract.Linkage.Rust
import Polyglot.Extract.Linkage.TypeScript
import Polyglot.Extract.Scope
import Polyglot.Grammar
import Polyglot.Grammar.Python
import Polyglot.Grammar.Rust
import Polyglot.Grammar.RustPath
import Polyglot.Grammar.TypeScript
import Polyglot.Ignore.Depth
import Polyglot.Ignore.Glob
import Polyglot.Ignore.Override
import Polyglot.Ignore.Pattern
import Polyglot.Ignore.Rule
import Polyglot.Json.Basic
import Polyglot.Json.Number
import Polyglot.Json.Reader
import Polyglot.Json.Writer
import Polyglot.Language
import Polyglot.Path
import Polyglot.Project.Aggregate
import Polyglot.Project.Cache
import Polyglot.Project.Disk
import Polyglot.Project.FileError
import Polyglot.Project.GitDirectory
import Polyglot.Project.IgnoreFiles
import Polyglot.Project.Provider
import Polyglot.Project.Walk
import Polyglot.Project.Walker
import Polyglot.Project.Warning
import Polyglot.Proofs.Affixes
import Polyglot.Proofs.Arguments
import Polyglot.Proofs.Blanks
import Polyglot.Proofs.Chains.Attempts
import Polyglot.Proofs.Chains.Coverage
import Polyglot.Proofs.Chains.Discovery
import Polyglot.Proofs.Chains.Dropped
import Polyglot.Proofs.Chains.Extent
import Polyglot.Proofs.Chains.Locality
import Polyglot.Proofs.Chains.Overlong
import Polyglot.Proofs.Chains.Restarts
import Polyglot.Proofs.Chains.Walk
import Polyglot.Proofs.Chains.Written
import Polyglot.Proofs.Comments
import Polyglot.Proofs.Comments.Basic
import Polyglot.Proofs.Comments.Python
import Polyglot.Proofs.Comments.Rust
import Polyglot.Proofs.Comments.TypeScript
import Polyglot.Proofs.Counters
import Polyglot.Proofs.Counting
import Polyglot.Proofs.Declarations
import Polyglot.Proofs.Declarations.Coverage
import Polyglot.Proofs.Declarations.ImplBlocks
import Polyglot.Proofs.Declarations.Methods
import Polyglot.Proofs.Declarations.Nesting
import Polyglot.Proofs.Declarations.Python
import Polyglot.Proofs.Declarations.Records
import Polyglot.Proofs.Declarations.Rust
import Polyglot.Proofs.Declarations.Search
import Polyglot.Proofs.Declarations.Search.Python
import Polyglot.Proofs.Declarations.Search.Rust
import Polyglot.Proofs.Declarations.Search.TypeScript
import Polyglot.Proofs.Declarations.Trace
import Polyglot.Proofs.Declarations.Traversal
import Polyglot.Proofs.Declarations.TypeScript
import Polyglot.Proofs.Degradation
import Polyglot.Proofs.Disk
import Polyglot.Proofs.Exports.Python
import Polyglot.Proofs.Exports.TypeScript
import Polyglot.Proofs.Limits
import Polyglot.Proofs.Limits.Basic
import Polyglot.Proofs.Limits.Chains
import Polyglot.Proofs.Limits.Declarations
import Polyglot.Proofs.Lists
import Polyglot.Proofs.Literals
import Polyglot.Proofs.Locality
import Polyglot.Proofs.Meaning
import Polyglot.Proofs.Numerals
import Polyglot.Proofs.Objects
import Polyglot.Proofs.Overrides
import Polyglot.Proofs.Paths
import Polyglot.Proofs.Positions
import Polyglot.Proofs.Provider.Accounting
import Polyglot.Proofs.Provider.Calls
import Polyglot.Proofs.Provider.Discovery
import Polyglot.Proofs.Provider.Exclusions
import Polyglot.Proofs.Provider.Operations
import Polyglot.Proofs.Provider.Scheduling
import Polyglot.Proofs.Provider.Transparency
import Polyglot.Proofs.Provider.Workers
import Polyglot.Proofs.Queries
import Polyglot.Proofs.Quoting
import Polyglot.Proofs.Reads
import Polyglot.Proofs.Respelling
import Polyglot.Proofs.Rounding
import Polyglot.Proofs.Serialization
import Polyglot.Proofs.Tree.Preorder
import Polyglot.Proofs.Tree.Visits
import Polyglot.Proofs.Tree.Walk
import Polyglot.Proofs.TypeNames
import Polyglot.Proofs.TypePaths
import Polyglot.Proofs.Unknowns
import Polyglot.Proofs.UseTrees
import Polyglot.Proofs.Visibility
import Polyglot.Proofs.Visibility.Basic
import Polyglot.Proofs.Visibility.Python
import Polyglot.Proofs.Visibility.Rust
import Polyglot.Proofs.Visibility.TypeScript
import Polyglot.Proofs.Walk
import Polyglot.Proofs.Walker
import Polyglot.Record.Argument
import Polyglot.Record.CallChain
import Polyglot.Record.Declaration
import Polyglot.Record.Decode
import Polyglot.Record.Encode
import Polyglot.Record.Fallbacks
import Polyglot.Record.File
import Polyglot.Record.Linkage
import Polyglot.Record.Position
import Polyglot.Text.Affix
import Polyglot.Text.Binary64
import Polyglot.Text.Blank
import Polyglot.Text.Display
import Polyglot.Text.Numeral
import Polyglot.Text.Quote
import Polyglot.Text.TypeName
import Polyglot.Text.Unprintable
import Polyglot.Toml.Document
import Polyglot.Toml.Scan
import Polyglot.Toml.Value
import Polyglot.Tree.Basic
import Polyglot.Tree.Node
import Polyglot.Tree.Size
import Polyglot.Tree.Source
