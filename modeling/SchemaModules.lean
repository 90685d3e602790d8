import SchemaModules.Assignment
import SchemaModules.Catalog.Basic
import SchemaModules.Catalog.Extract
import SchemaModules.Catalog.Index
import SchemaModules.Cli.Arguments
import SchemaModules.Cli.Run
import SchemaModules.Cli.Style
import SchemaModules.Config.Basic
import SchemaModules.Config.Error
import SchemaModules.Config.Toml
import SchemaModules.Config.Validity
import SchemaModules.Declaration.Banner
import SchemaModules.Declaration.Extent
import SchemaModules.Declaration.Nesting
import SchemaModules.Declaration.Pattern
import SchemaModules.Digest.Sha256
import SchemaModules.Disk.Basic
import SchemaModules.Disk.Error
import SchemaModules.Disk.Path
import SchemaModules.Disk.Tree
import SchemaModules.Failure
import SchemaModules.Json.Pretty
import SchemaModules.Json.Value
import SchemaModules.Lexical.Grammar
import SchemaModules.Lexical.Inert
import SchemaModules.Lexical.Lexer
import SchemaModules.Lookup
import SchemaModules.Main
import SchemaModules.Module
import SchemaModules.Order.StableSort
import SchemaModules.Output.Check
import SchemaModules.Output.Render
import SchemaModules.Output.Write
import SchemaModules.Partition
import SchemaModules.Proofs.AliasTexts
import SchemaModules.Proofs.Blanking
import SchemaModules.Proofs.Bodies
import SchemaModules.Proofs.Bounds
import SchemaModules.Proofs.Brackets
import SchemaModules.Proofs.Bytes
import SchemaModules.Proofs.CatalogIndex
import SchemaModules.Proofs.Checked
import SchemaModules.Proofs.Closing
import SchemaModules.Proofs.Collection
import SchemaModules.Proofs.Comments
import SchemaModules.Proofs.Confinement
import SchemaModules.Proofs.Currency
import SchemaModules.Proofs.Declared
import SchemaModules.Proofs.Denial
import SchemaModules.Proofs.Discovery
import SchemaModules.Proofs.Edges
import SchemaModules.Proofs.Extraction
import SchemaModules.Proofs.Failures
import SchemaModules.Proofs.Forms
import SchemaModules.Proofs.Imports
import SchemaModules.Proofs.Index
import SchemaModules.Proofs.InertIndex
import SchemaModules.Proofs.InertSpans
import SchemaModules.Proofs.Layout
import SchemaModules.Proofs.Listings
import SchemaModules.Proofs.Mentions
import SchemaModules.Proofs.Modules
import SchemaModules.Proofs.NestedCode
import SchemaModules.Proofs.Occurrences
import SchemaModules.Proofs.Overlaps
import SchemaModules.Proofs.Pieces
import SchemaModules.Proofs.Placement
import SchemaModules.Proofs.Portable
import SchemaModules.Proofs.Pruning
import SchemaModules.Proofs.Reading
import SchemaModules.Proofs.Reextraction
import SchemaModules.Proofs.References
import SchemaModules.Proofs.Regeneration
import SchemaModules.Proofs.Reloading
import SchemaModules.Proofs.Relocation
import SchemaModules.Proofs.Sharing
import SchemaModules.Proofs.Spans
import SchemaModules.Proofs.Standalone
import SchemaModules.Proofs.Starts
import SchemaModules.Proofs.Statements
import SchemaModules.Proofs.Symbols
import SchemaModules.Proofs.Terminators
import SchemaModules.Proofs.ValidConfig
import SchemaModules.Proofs.Verbatim
import SchemaModules.Proofs.WorkingCopy
import SchemaModules.Reference.Cycle
import SchemaModules.Reference.Edge
import SchemaModules.Reference.Graph
import SchemaModules.Reference.Identifier
import SchemaModules.Reference.Import
import SchemaModules.Text.Alphabetic
import SchemaModules.Text.Blank
import SchemaModules.Text.Bytes
import SchemaModules.Text.Line
import SchemaModules.Text.Mark
import SchemaModules.Text.Name
import SchemaModules.Text.Number
import SchemaModules.Text.Pattern
import SchemaModules.Text.Range
import SchemaModules.Text.Recent
import SchemaModules.Text.Split
import SchemaModules.Text.Whole
import SchemaModules.Toml.Definition
import SchemaModules.Toml.Document
import SchemaModules.Toml.Fault
import SchemaModules.Toml.Quoted
import SchemaModules.Toml.Reader
import SchemaModules.Toml.Scalar
import SchemaModules.Toml.Value
import SchemaModules.Toml.Writer
import SchemaModules.Warning
