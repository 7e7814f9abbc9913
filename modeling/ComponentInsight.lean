import ComponentInsight.Cache
import ComponentInsight.Cache.History
import ComponentInsight.Config.Json
import ComponentInsight.Config.Project
import ComponentInsight.Config.Settings
import ComponentInsight.Declarations
import ComponentInsight.Description
import ComponentInsight.Document.Block
import ComponentInsight.Document.Bytes
import ComponentInsight.Document.Cursor
import ComponentInsight.Document.Regions
import ComponentInsight.Events
import ComponentInsight.Extraction
import ComponentInsight.FileTree
import ComponentInsight.Fingerprint
import ComponentInsight.Fingerprint.Xxh3
import ComponentInsight.Import.AliasTable
import ComponentInsight.Import.Resolver
import ComponentInsight.Lookup
import ComponentInsight.Lookup.Reach
import ComponentInsight.Lookup.Record
import ComponentInsight.Metadata
import ComponentInsight.Name
import ComponentInsight.Number.Binary64
import ComponentInsight.Number.Shortest
import ComponentInsight.Options.Literal
import ComponentInsight.Options.Object
import ComponentInsight.Options.Props
import ComponentInsight.Options.Registrations
import ComponentInsight.Path
import ComponentInsight.Proofs.Cache.Entries
import ComponentInsight.Proofs.Cache.Recency
import ComponentInsight.Proofs.Config.Caching
import ComponentInsight.Proofs.Config.Json
import ComponentInsight.Proofs.Document.ByteContents
import ComponentInsight.Proofs.Document.ByteReading
import ComponentInsight.Proofs.Document.ByteScanning
import ComponentInsight.Proofs.Document.Comments
import ComponentInsight.Proofs.Document.Contents
import ComponentInsight.Proofs.Document.Encoding
import ComponentInsight.Proofs.Document.Locality
import ComponentInsight.Proofs.Document.Locations
import ComponentInsight.Proofs.Document.Nesting
import ComponentInsight.Proofs.Document.Reading
import ComponentInsight.Proofs.Document.Rendering
import ComponentInsight.Proofs.Document.Scanning
import ComponentInsight.Proofs.Document.Splitting
import ComponentInsight.Proofs.Document.Templates
import ComponentInsight.Proofs.Events
import ComponentInsight.Proofs.FileTree.Components
import ComponentInsight.Proofs.FileTree.Growth
import ComponentInsight.Proofs.FileTree.History
import ComponentInsight.Proofs.FileTree.Joining
import ComponentInsight.Proofs.FileTree.LastNames
import ComponentInsight.Proofs.FileTree.Normalizing
import ComponentInsight.Proofs.FileTree.Places
import ComponentInsight.Proofs.FileTree.Rewriting
import ComponentInsight.Proofs.Fingerprint.Parts
import ComponentInsight.Proofs.Import.Aliases
import ComponentInsight.Proofs.Import.Candidates
import ComponentInsight.Proofs.Import.Importers
import ComponentInsight.Proofs.Import.Mappings
import ComponentInsight.Proofs.Import.Normalized
import ComponentInsight.Proofs.Lookup.Calls
import ComponentInsight.Proofs.Lookup.Faithful
import ComponentInsight.Proofs.Lookup.Frame
import ComponentInsight.Proofs.Lookup.Induction
import ComponentInsight.Proofs.Lookup.Order
import ComponentInsight.Proofs.Lookup.Reference
import ComponentInsight.Proofs.Lookup.Stores
import ComponentInsight.Proofs.Lookup.Versions
import ComponentInsight.Proofs.Lookup.Visits
import ComponentInsight.Proofs.Metadata.Extraction
import ComponentInsight.Proofs.Metadata.Merging
import ComponentInsight.Proofs.Metadata.Shadowing
import ComponentInsight.Proofs.Metadata.Shape
import ComponentInsight.Proofs.Mixins.Chains
import ComponentInsight.Proofs.Mixins.Tree
import ComponentInsight.Proofs.Options.Duplicates
import ComponentInsight.Proofs.Options.Wrappers
import ComponentInsight.Proofs.Script.Depth
import ComponentInsight.Proofs.Script.Progress
import ComponentInsight.Proofs.Script.Progress.Expressions
import ComponentInsight.Proofs.Script.Progress.Functions
import ComponentInsight.Proofs.Script.Progress.Statements
import ComponentInsight.Proofs.Script.Progress.Types
import ComponentInsight.Proofs.Script.Tokens
import ComponentInsight.Proofs.Service.Answers
import ComponentInsight.Proofs.Service.Attributes
import ComponentInsight.Proofs.Service.Buffers
import ComponentInsight.Proofs.Service.Coherence
import ComponentInsight.Proofs.Service.Dependencies
import ComponentInsight.Proofs.Service.Invariant
import ComponentInsight.Proofs.Service.Keys
import ComponentInsight.Proofs.Service.OrderDependence
import ComponentInsight.Proofs.Service.Presence
import ComponentInsight.Proofs.Service.Recall
import ComponentInsight.Proofs.Service.Repetition
import ComponentInsight.Proofs.Service.Requests
import ComponentInsight.Proofs.Service.Runs
import ComponentInsight.Proofs.Service.SettingsSnapshot
import ComponentInsight.Proofs.Service.Shape
import ComponentInsight.Proofs.Service.Sharing
import ComponentInsight.Proofs.Service.Tags
import ComponentInsight.Proofs.Service.Termination
import ComponentInsight.Proofs.Table
import ComponentInsight.Script.Dialect
import ComponentInsight.Script.Grammar
import ComponentInsight.Script.Grammar.Classes
import ComponentInsight.Script.Grammar.Declarations
import ComponentInsight.Script.Grammar.Expressions
import ComponentInsight.Script.Grammar.Functions
import ComponentInsight.Script.Grammar.Markup
import ComponentInsight.Script.Grammar.Modifiers
import ComponentInsight.Script.Grammar.Modules
import ComponentInsight.Script.Grammar.Objects
import ComponentInsight.Script.Grammar.Patterns
import ComponentInsight.Script.Grammar.Statements
import ComponentInsight.Script.Grammar.Targets
import ComponentInsight.Script.Grammar.Types
import ComponentInsight.Script.Lexer
import ComponentInsight.Script.Parse
import ComponentInsight.Script.Parser
import ComponentInsight.Script.Token
import ComponentInsight.Script.Tree
import ComponentInsight.Service
import ComponentInsight.Table
import ComponentInsight.Text.CharClass
import ComponentInsight.Text.Ranges
