import EmbeddedLang.Arithmetic
import EmbeddedLang.Cache.Compilation
import EmbeddedLang.Cache.Entry
import EmbeddedLang.Cache.Fingerprint
import EmbeddedLang.Cache.Traffic
import EmbeddedLang.CompileError
import EmbeddedLang.Decimal.Layout
import EmbeddedLang.Decimal.Reading
import EmbeddedLang.Decimal.Shortest
import EmbeddedLang.Dictionary
import EmbeddedLang.Digest.Sha256
import EmbeddedLang.Engine.Basic
import EmbeddedLang.Engine.Query
import EmbeddedLang.Engine.Template
import EmbeddedLang.Expr.Basic
import EmbeddedLang.Expr.Text
import EmbeddedLang.Expr.Walk
import EmbeddedLang.Lexical.LanguageTable
import EmbeddedLang.Lexical.Scanner
import EmbeddedLang.Lexical.Token
import EmbeddedLang.Parser.Cursor
import EmbeddedLang.Parser.Expression
import EmbeddedLang.Parser.Grammar
import EmbeddedLang.Position
import EmbeddedLang.Proofs.Agreement
import EmbeddedLang.Proofs.Arithmetic.Completeness
import EmbeddedLang.Proofs.Arithmetic.Expressible
import EmbeddedLang.Proofs.Arithmetic.Lookahead
import EmbeddedLang.Proofs.Arithmetic.Operands
import EmbeddedLang.Proofs.Arithmetic.Scanning
import EmbeddedLang.Proofs.Cache.Balance
import EmbeddedLang.Proofs.Cache.Failures
import EmbeddedLang.Proofs.Cache.Fingerprints
import EmbeddedLang.Proofs.Cache.Outcomes
import EmbeddedLang.Proofs.Cache.Recency
import EmbeddedLang.Proofs.Cache.SingleFlight
import EmbeddedLang.Proofs.Cache.Slots
import EmbeddedLang.Proofs.Dictionary
import EmbeddedLang.Proofs.Engine.Places
import EmbeddedLang.Proofs.Engine.Transparency
import EmbeddedLang.Proofs.Engine.Variants
import EmbeddedLang.Proofs.Expr.Nodes
import EmbeddedLang.Proofs.Expr.Relocation
import EmbeddedLang.Proofs.IntegerLiterals
import EmbeddedLang.Proofs.Lexical.Ahead
import EmbeddedLang.Proofs.Lexical.Ending
import EmbeddedLang.Proofs.Lexical.Literals
import EmbeddedLang.Proofs.Lexical.Respacing
import EmbeddedLang.Proofs.Lexical.Shapes
import EmbeddedLang.Proofs.Lexical.Spacing
import EmbeddedLang.Proofs.Lexical.Tiles
import EmbeddedLang.Proofs.Lexical.Tiling
import EmbeddedLang.Proofs.Negation
import EmbeddedLang.Proofs.Parser.Buffering
import EmbeddedLang.Proofs.Parser.Forms
import EmbeddedLang.Proofs.Parser.Gives
import EmbeddedLang.Proofs.Parser.Hereditary
import EmbeddedLang.Proofs.Parser.Integers
import EmbeddedLang.Proofs.Parser.Lookahead
import EmbeddedLang.Proofs.Parser.Precedence
import EmbeddedLang.Proofs.Parser.RawTexts
import EmbeddedLang.Proofs.Parser.Reaches
import EmbeddedLang.Proofs.Parser.Reads
import EmbeddedLang.Proofs.Parser.RelocatedExpressions
import EmbeddedLang.Proofs.Parser.Relocation
import EmbeddedLang.Proofs.Parser.Soundness
import EmbeddedLang.Proofs.Parser.Written
import EmbeddedLang.Proofs.Parser.Yields
import EmbeddedLang.Proofs.Query.Beginnings
import EmbeddedLang.Proofs.Query.BindOrder
import EmbeddedLang.Proofs.Query.BindTypes
import EmbeddedLang.Proofs.Query.Blame
import EmbeddedLang.Proofs.Query.Bracketed
import EmbeddedLang.Proofs.Query.CastTargets
import EmbeddedLang.Proofs.Query.Comments
import EmbeddedLang.Proofs.Query.Correspondence
import EmbeddedLang.Proofs.Query.Demands
import EmbeddedLang.Proofs.Query.Layout
import EmbeddedLang.Proofs.Query.Literals
import EmbeddedLang.Proofs.Query.Nodes
import EmbeddedLang.Proofs.Query.Noninterference
import EmbeddedLang.Proofs.Query.Numbering
import EmbeddedLang.Proofs.Query.Operands
import EmbeddedLang.Proofs.Query.Parsed
import EmbeddedLang.Proofs.Query.Placeholders
import EmbeddedLang.Proofs.Query.Precedence
import EmbeddedLang.Proofs.Query.Quoting
import EmbeddedLang.Proofs.Query.References
import EmbeddedLang.Proofs.Query.Relationships
import EmbeddedLang.Proofs.Query.Relocation
import EmbeddedLang.Proofs.Query.Resolution
import EmbeddedLang.Proofs.Query.Signatures
import EmbeddedLang.Proofs.Query.Slots
import EmbeddedLang.Proofs.Query.Traversal
import EmbeddedLang.Proofs.Query.Unquoted
import EmbeddedLang.Proofs.Query.Written
import EmbeddedLang.Proofs.Render.Assigned
import EmbeddedLang.Proofs.Render.Builtins
import EmbeddedLang.Proofs.Render.Congruence
import EmbeddedLang.Proofs.Render.Consulted
import EmbeddedLang.Proofs.Render.Ensures
import EmbeddedLang.Proofs.Render.Escaping
import EmbeddedLang.Proofs.Render.Flow
import EmbeddedLang.Proofs.Render.Frame
import EmbeddedLang.Proofs.Render.Included
import EmbeddedLang.Proofs.Render.Inheritance
import EmbeddedLang.Proofs.Render.Interpretation
import EmbeddedLang.Proofs.Render.Limits
import EmbeddedLang.Proofs.Render.Lowered
import EmbeddedLang.Proofs.Render.Ordered
import EmbeddedLang.Proofs.Render.Parentheses
import EmbeddedLang.Proofs.Render.Parts
import EmbeddedLang.Proofs.Render.Programs
import EmbeddedLang.Proofs.Render.Ranges
import EmbeddedLang.Proofs.Render.Replay
import EmbeddedLang.Proofs.Render.Reports
import EmbeddedLang.Proofs.Render.Settling
import EmbeddedLang.Proofs.Render.Sorting
import EmbeddedLang.Proofs.Render.Unrolled
import EmbeddedLang.Proofs.Returns
import EmbeddedLang.Proofs.SourceOrder
import EmbeddedLang.Proofs.Template.Blame
import EmbeddedLang.Proofs.Template.Blocks
import EmbeddedLang.Proofs.Template.Children
import EmbeddedLang.Proofs.Template.Declaring
import EmbeddedLang.Proofs.Template.Directives
import EmbeddedLang.Proofs.Template.Drafting
import EmbeddedLang.Proofs.Template.Guarded
import EmbeddedLang.Proofs.Template.Jumps
import EmbeddedLang.Proofs.Template.Literals
import EmbeddedLang.Proofs.Template.Markers
import EmbeddedLang.Proofs.Template.Merged
import EmbeddedLang.Proofs.Template.Nesting
import EmbeddedLang.Proofs.Template.Pairing
import EmbeddedLang.Proofs.Template.Parentheses
import EmbeddedLang.Proofs.Template.Parsed
import EmbeddedLang.Proofs.Template.Precedence
import EmbeddedLang.Proofs.Template.Referenced
import EmbeddedLang.Proofs.Template.Relocation
import EmbeddedLang.Proofs.Template.Segments
import EmbeddedLang.Proofs.Template.Settling
import EmbeddedLang.Proofs.Template.Texts
import EmbeddedLang.Proofs.Template.Written
import EmbeddedLang.Proofs.Text.Escaped
import EmbeddedLang.Proofs.Text.PrefixFree
import EmbeddedLang.Proofs.Value.Comparison
import EmbeddedLang.Proofs.Value.Floats
import EmbeddedLang.Proofs.Value.Integers
import EmbeddedLang.Proofs.Value.Ordered
import EmbeddedLang.Proofs.Value.Ranges
import EmbeddedLang.Query.Construct
import EmbeddedLang.Query.Dialect
import EmbeddedLang.Query.Fragment
import EmbeddedLang.Query.Grammar
import EmbeddedLang.Query.Metadata
import EmbeddedLang.Query.Metadata.Json
import EmbeddedLang.Query.Scope
import EmbeddedLang.Query.Select
import EmbeddedLang.Query.Sql
import EmbeddedLang.Query.Statement
import EmbeddedLang.Query.SyntaxTemplate
import EmbeddedLang.Render.Arguments
import EmbeddedLang.Render.Error
import EmbeddedLang.Render.Evaluation
import EmbeddedLang.Render.Execution
import EmbeddedLang.Render.Filters
import EmbeddedLang.Render.Functions
import EmbeddedLang.Render.Interpretation
import EmbeddedLang.Render.Library
import EmbeddedLang.Render.Renderer
import EmbeddedLang.Render.Session
import EmbeddedLang.Render.Tests
import EmbeddedLang.Settings.Basic
import EmbeddedLang.Settings.Document
import EmbeddedLang.Settings.Overrides
import EmbeddedLang.Template.Extension
import EmbeddedLang.Template.Grammar
import EmbeddedLang.Template.Instruction
import EmbeddedLang.Template.Lowering
import EmbeddedLang.Template.Node
import EmbeddedLang.Template.Parsing
import EmbeddedLang.Text.Alphanumeric
import EmbeddedLang.Text.Blank
import EmbeddedLang.Text.CaseTables
import EmbeddedLang.Text.Escape
import EmbeddedLang.Text.LetterCase
import EmbeddedLang.Text.Printable
import EmbeddedLang.Text.Quoted
import EmbeddedLang.Text.Search
import EmbeddedLang.Toml.Document
import EmbeddedLang.Toml.Item
import EmbeddedLang.Toml.Quoted
import EmbeddedLang.Toml.Scalar
import EmbeddedLang.Value.Basic
import EmbeddedLang.Value.Json
import EmbeddedLang.Value.Operators
import EmbeddedLang.Value.Order
import EmbeddedLang.Value.Range
import EmbeddedLang.Value.Slice
