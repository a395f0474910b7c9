import QueryScore.Cache
import QueryScore.Classification
import QueryScore.CommandLine.Command
import QueryScore.CommandLine.Gate
import QueryScore.CommandLine.Run
import QueryScore.CommitMessage
import QueryScore.Config
import QueryScore.Cypher.Extract
import QueryScore.Cypher.Grammar
import QueryScore.Cypher.Parse
import QueryScore.Cypher.Rule
import QueryScore.Cypher.Walk
import QueryScore.Decimal.Binary64
import QueryScore.Decimal.Layout
import QueryScore.Duration
import QueryScore.Evaluation.Assessment
import QueryScore.Evaluation.Plan
import QueryScore.Execution.Answer
import QueryScore.Execution.Cancellation
import QueryScore.Execution.Cell
import QueryScore.Execution.Recorded
import QueryScore.Execution.Supervision
import QueryScore.Extraction
import QueryScore.Filter
import QueryScore.Json.Basic
import QueryScore.Json.Decode
import QueryScore.Json.Document
import QueryScore.Json.Number
import QueryScore.Json.Writer
import QueryScore.Language
import QueryScore.Main
import QueryScore.Name
import QueryScore.Output
import QueryScore.Peg
import QueryScore.Proofs.CommandLine.Rescored
import QueryScore.Proofs.CommandLine.Validated
import QueryScore.Proofs.CommitMessage.Convention
import QueryScore.Proofs.Cypher.Aggregated
import QueryScore.Proofs.Cypher.Balance
import QueryScore.Proofs.Cypher.Boundary
import QueryScore.Proofs.Cypher.Branch
import QueryScore.Proofs.Cypher.Called
import QueryScore.Proofs.Cypher.CaseBlind
import QueryScore.Proofs.Cypher.Cleared
import QueryScore.Proofs.Cypher.ClearedText
import QueryScore.Proofs.Cypher.Comment
import QueryScore.Proofs.Cypher.Condition
import QueryScore.Proofs.Cypher.Event
import QueryScore.Proofs.Cypher.Filler
import QueryScore.Proofs.Cypher.Followed
import QueryScore.Proofs.Cypher.Fuel
import QueryScore.Proofs.Cypher.Guard
import QueryScore.Proofs.Cypher.Known
import QueryScore.Proofs.Cypher.Labelled
import QueryScore.Proofs.Cypher.Layout
import QueryScore.Proofs.Cypher.Listing
import QueryScore.Proofs.Cypher.Lockstep
import QueryScore.Proofs.Cypher.Mirrored
import QueryScore.Proofs.Cypher.Nesting
import QueryScore.Proofs.Cypher.Path
import QueryScore.Proofs.Cypher.Quoted
import QueryScore.Proofs.Cypher.Renamed
import QueryScore.Proofs.Cypher.Reserved
import QueryScore.Proofs.Cypher.ReturnClause
import QueryScore.Proofs.Cypher.ReturnItem
import QueryScore.Proofs.Cypher.Returned
import QueryScore.Proofs.Cypher.Search
import QueryScore.Proofs.Cypher.SimilarWalk
import QueryScore.Proofs.Cypher.Sorted
import QueryScore.Proofs.Cypher.Spacing
import QueryScore.Proofs.Cypher.Token
import QueryScore.Proofs.Cypher.Word
import QueryScore.Proofs.Decimal.Arithmetic
import QueryScore.Proofs.Decimal.Bits
import QueryScore.Proofs.Decimal.Nearest
import QueryScore.Proofs.Decimal.Plain
import QueryScore.Proofs.Decimal.Rescaled
import QueryScore.Proofs.Decimal.Value
import QueryScore.Proofs.Evaluation.Coherent
import QueryScore.Proofs.Evaluation.Recent
import QueryScore.Proofs.Evaluation.Reference
import QueryScore.Proofs.Evaluation.Remembered
import QueryScore.Proofs.Evaluation.Shared
import QueryScore.Proofs.Execution.Cancelled
import QueryScore.Proofs.Execution.Reordered
import QueryScore.Proofs.Execution.Supervised
import QueryScore.Proofs.Filter.Combined
import QueryScore.Proofs.Filter.Extracted
import QueryScore.Proofs.Filter.Operand
import QueryScore.Proofs.Filter.Settled
import QueryScore.Proofs.Filter.Spelling
import QueryScore.Proofs.Json.Decoding
import QueryScore.Proofs.Json.Equality
import QueryScore.Proofs.Json.Moderate
import QueryScore.Proofs.Json.Numeral
import QueryScore.Proofs.Json.Reading
import QueryScore.Proofs.Name.Dotted
import QueryScore.Proofs.Peg.Answer
import QueryScore.Proofs.Peg.Changed
import QueryScore.Proofs.Peg.Flow
import QueryScore.Proofs.Peg.Fuel
import QueryScore.Proofs.Peg.Node
import QueryScore.Proofs.Peg.Reading
import QueryScore.Proofs.Peg.Refusal
import QueryScore.Proofs.Record.ReadBack
import QueryScore.Proofs.Score.Count
import QueryScore.Proofs.Score.Extremes
import QueryScore.Proofs.Score.Overlap
import QueryScore.Proofs.Score.Reduced
import QueryScore.Proofs.Score.Rounded
import QueryScore.Proofs.Score.SameRows
import QueryScore.Proofs.Score.Scale
import QueryScore.Proofs.Score.Whole
import QueryScore.Proofs.Sql.Aliases
import QueryScore.Proofs.Sql.Bracketed
import QueryScore.Proofs.Sql.Projected
import QueryScore.Proofs.Sql.Reconditioned
import QueryScore.Proofs.Sql.SetOperation
import QueryScore.Proofs.Summary.Counted
import QueryScore.Proofs.Text.Alike
import QueryScore.Proofs.Text.Called
import QueryScore.Proofs.Text.Hit
import QueryScore.Proofs.Text.Letter
import QueryScore.Proofs.Text.Lower
import QueryScore.Proofs.Text.Nested
import QueryScore.Proofs.Text.Occurrence
import QueryScore.Proofs.Text.Pairing
import QueryScore.Proofs.Text.Quiet
import QueryScore.Proofs.Text.Recased
import QueryScore.Proofs.Text.Respelled
import QueryScore.Proofs.Text.Shown
import QueryScore.Proofs.Text.Split
import QueryScore.Proofs.Text.Stretches
import QueryScore.Proofs.Text.Trim
import QueryScore.Proofs.Text.Wrapped
import QueryScore.Record
import QueryScore.Record.Codec
import QueryScore.Score.Components
import QueryScore.Score.Rows
import QueryScore.Score.Sets
import QueryScore.SortedSet
import QueryScore.Sql.Command.Access
import QueryScore.Sql.Command.Alter
import QueryScore.Sql.Command.Copy
import QueryScore.Sql.Command.Create
import QueryScore.Sql.Command.Phrase
import QueryScore.Sql.Command.Routine
import QueryScore.Sql.Command.Script
import QueryScore.Sql.Command.Session
import QueryScore.Sql.Command.Upkeep
import QueryScore.Sql.DataType
import QueryScore.Sql.Escape
import QueryScore.Sql.Extract
import QueryScore.Sql.Grammar.Block
import QueryScore.Sql.Grammar.Call
import QueryScore.Sql.Grammar.Change
import QueryScore.Sql.Grammar.Column
import QueryScore.Sql.Grammar.Document
import QueryScore.Sql.Grammar.Forms
import QueryScore.Sql.Grammar.From
import QueryScore.Sql.Grammar.Naming
import QueryScore.Sql.Grammar.Operand
import QueryScore.Sql.Grammar.Operator
import QueryScore.Sql.Grammar.Reshape
import QueryScore.Sql.Grammar.Rules
import QueryScore.Sql.Grammar.Type
import QueryScore.Sql.Grammar.Whole
import QueryScore.Sql.Lexer
import QueryScore.Sql.Marks
import QueryScore.Sql.Parser
import QueryScore.Sql.Statement
import QueryScore.Sql.Token
import QueryScore.Sql.Tree
import QueryScore.Sql.Vocabulary
import QueryScore.Structure
import QueryScore.Structure.Codec
import QueryScore.Summary
import QueryScore.Task
import QueryScore.Text.Alphabetic
import QueryScore.Text.Blank
import QueryScore.Text.Casing
import QueryScore.Text.CodeRange
import QueryScore.Text.Hexadecimal
import QueryScore.Text.Keyword
import QueryScore.Text.Pattern
import QueryScore.Text.Quoted
import QueryScore.Text.Scan
import QueryScore.Validation
