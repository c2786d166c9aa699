import BlockLang.Code.Error
import BlockLang.Code.Literal
import BlockLang.Code.Name
import BlockLang.Code.Piece
import BlockLang.CommandLine.Arguments
import BlockLang.CommandLine.Run
import BlockLang.Decimal.Double
import BlockLang.Decimal.Layout
import BlockLang.Decimal.Numeral
import BlockLang.Decimal.Shortest
import BlockLang.FileTree.Basic
import BlockLang.FileTree.Operations
import BlockLang.FileTree.Path
import BlockLang.FileTree.Replace
import BlockLang.FileTree.Walk
import BlockLang.Json.Lexeme
import BlockLang.Json.Number
import BlockLang.Json.Reader
import BlockLang.Json.Value
import BlockLang.Json.Writer
import BlockLang.Main
import BlockLang.Outcomes
import BlockLang.Pattern
import BlockLang.Pattern.Expr
import BlockLang.Pattern.Meaning
import BlockLang.Pattern.Portable
import BlockLang.Pattern.Reader
import BlockLang.Pattern.Reader.Class
import BlockLang.Pattern.Reader.Escape
import BlockLang.Pattern.Reader.Group
import BlockLang.Pattern.Size
import BlockLang.Pattern.Syntax
import BlockLang.Project.Build
import BlockLang.Project.Config
import BlockLang.Project.ConfigSchema
import BlockLang.Project.Error
import BlockLang.Project.Modules
import BlockLang.Proofs.AbsolutePositions
import BlockLang.Proofs.BlockFailures
import BlockLang.Proofs.BlockRecognition
import BlockLang.Proofs.Blocks
import BlockLang.Proofs.BuildWrites
import BlockLang.Proofs.Completions
import BlockLang.Proofs.Concatenation
import BlockLang.Proofs.ConfigFiles
import BlockLang.Proofs.Constraints
import BlockLang.Proofs.CursorRuns
import BlockLang.Proofs.Cursors
import BlockLang.Proofs.Decimals
import BlockLang.Proofs.Declarations
import BlockLang.Proofs.DeclaredPatterns
import BlockLang.Proofs.EmissionChecks
import BlockLang.Proofs.EmitOptions
import BlockLang.Proofs.Emitters
import BlockLang.Proofs.Enclosure
import BlockLang.Proofs.Encoding
import BlockLang.Proofs.ErrorPositions
import BlockLang.Proofs.ErrorReports
import BlockLang.Proofs.Extraction
import BlockLang.Proofs.FileSlots
import BlockLang.Proofs.Filler
import BlockLang.Proofs.GeneratedCode
import BlockLang.Proofs.Grammar
import BlockLang.Proofs.HandlerEntries
import BlockLang.Proofs.ImportCycles
import BlockLang.Proofs.Indentation
import BlockLang.Proofs.JsonTexts
import BlockLang.Proofs.Layout
import BlockLang.Proofs.Lexemes
import BlockLang.Proofs.ListQueries
import BlockLang.Proofs.Lists
import BlockLang.Proofs.LoadOrder
import BlockLang.Proofs.Loading
import BlockLang.Proofs.Locality
import BlockLang.Proofs.Members
import BlockLang.Proofs.MigrationTexts
import BlockLang.Proofs.ModuleScopes
import BlockLang.Proofs.ModuleText
import BlockLang.Proofs.NameClashes
import BlockLang.Proofs.NameResolution
import BlockLang.Proofs.Numerals
import BlockLang.Proofs.Opacity
import BlockLang.Proofs.ParsedSchemas
import BlockLang.Proofs.ParsedTrees
import BlockLang.Proofs.Passages
import BlockLang.Proofs.PatternReaders
import BlockLang.Proofs.PatternReading
import BlockLang.Proofs.PortablePatterns
import BlockLang.Proofs.QuotedLists
import BlockLang.Proofs.Readers
import BlockLang.Proofs.Rebuilding
import BlockLang.Proofs.Recognition
import BlockLang.Proofs.Resumption
import BlockLang.Proofs.Runs
import BlockLang.Proofs.Scanning
import BlockLang.Proofs.ScopedTexts
import BlockLang.Proofs.Scopes
import BlockLang.Proofs.Script.Conversions
import BlockLang.Proofs.Script.Meaning
import BlockLang.Proofs.Script.Reading
import BlockLang.Proofs.Script.Syntax
import BlockLang.Proofs.Script.Validator
import BlockLang.Proofs.SiblingPaths
import BlockLang.Proofs.SqlText
import BlockLang.Proofs.StagedWrites
import BlockLang.Proofs.StatementTexts
import BlockLang.Proofs.StoredRecords
import BlockLang.Proofs.ThrownFailures
import BlockLang.Proofs.TopLevelNames
import BlockLang.Proofs.ValidatedRecords
import BlockLang.Proofs.ValidatorAgreement
import BlockLang.Proofs.ValidatorScopes
import BlockLang.Proofs.ViablePrefixes
import BlockLang.Server
import BlockLang.Server.Handlers
import BlockLang.Server.Migrations
import BlockLang.Server.Queries
import BlockLang.Server.Scope
import BlockLang.Server.Types
import BlockLang.Server.Validator
import BlockLang.Source.Body
import BlockLang.Source.Error
import BlockLang.Source.Position
import BlockLang.Source.Scan
import BlockLang.Source.Token
import BlockLang.Sql.Dialect
import BlockLang.Sql.ListQuery
import BlockLang.Sql.Migration
import BlockLang.Sql.Statements
import BlockLang.Text.Alphabetic
import BlockLang.Text.Blank
import BlockLang.Text.ByteRanges
import BlockLang.Text.CaseFold
import BlockLang.Text.CharSet
import BlockLang.Text.Lines
import BlockLang.Text.Numeric
import BlockLang.Text.Quoted
import BlockLang.Text.Units
import BlockLang.Text.Unprintable
import BlockLang.Text.Utf8
import BlockLang.Text.Visible
import BlockLang.Text.Word
import BlockLang.Tree.Basic
import BlockLang.Tree.Json
import BlockLang.Tree.Parser
import BlockLang.Tree.Parser.Action
import BlockLang.Tree.Parser.Migration
import BlockLang.Tree.Parser.Route
import BlockLang.Tree.Parser.Rule
import BlockLang.Tree.Parser.Schema
import BlockLang.Tree.Summary
import BlockLang.Tree.Verb
import BlockLang.Validation.Check
import BlockLang.Validation.Format
import BlockLang.Validation.Guard
import BlockLang.Validation.Kind
import BlockLang.Validation.Number
import BlockLang.Validation.Record
