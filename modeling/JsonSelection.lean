import JsonSelection.Budget
import JsonSelection.Cache
import JsonSelection.CommandLine.Options
import JsonSelection.CommandLine.Tool
import JsonSelection.Cost.Amount
import JsonSelection.Cost.Estimate
import JsonSelection.Cost.Tree
import JsonSelection.DotPath
import JsonSelection.Entries
import JsonSelection.FieldName
import JsonSelection.Json.Basic
import JsonSelection.Json.Display
import JsonSelection.Json.Parser
import JsonSelection.Json.Printer
import JsonSelection.Limits
import JsonSelection.Main
import JsonSelection.Number.Binary64
import JsonSelection.Number.Fraction
import JsonSelection.Number.Notation
import JsonSelection.Number.Power
import JsonSelection.Number.Rounding
import JsonSelection.Number.Shortest
import JsonSelection.Page
import JsonSelection.Paging.Address
import JsonSelection.Paging.Hint
import JsonSelection.Paging.HostLiteral
import JsonSelection.Query.Argument
import JsonSelection.Query.Error
import JsonSelection.Query.Execution
import JsonSelection.Query.Operation
import JsonSelection.Query.Parser
import JsonSelection.Query.Token
import JsonSelection.Report
import JsonSelection.Sample
import JsonSelection.Schema.Body
import JsonSelection.Schema.Build
import JsonSelection.Schema.Definition
import JsonSelection.Schema.Inference
import JsonSelection.Schema.InputType
import JsonSelection.Schema.Reach
import JsonSelection.Schema.Suggestion
import JsonSelection.Schema.Summary
import JsonSelection.Schema.Type
import JsonSelection.Shape.Digest
import JsonSelection.Shape.Fingerprint
import JsonSelection.Shape.Hash
import JsonSelection.Slice
import JsonSelection.Text.Blank
import JsonSelection.Text.Digit
import JsonSelection.Text.Hex
import JsonSelection.Text.Integer
import JsonSelection.Text.Pieces
import JsonSelection.Text.Printable
import JsonSelection.Text.Quoted
import JsonSelection.Text.Ranges
import JsonSelection.Text.Upper
import JsonSelection.Text.Utf8
import JsonSelection.Text.Word
import JsonSelection.Proofs.Query.Acceptance
import JsonSelection.Proofs.Query.FullSelection
import JsonSelection.Proofs.Schema.Suggestions
import JsonSelection.Proofs.Shape.Canonical
import JsonSelection.Proofs.Schema.Sharing
import JsonSelection.Proofs.Query.Conformance
import JsonSelection.Proofs.Schema.Conflicts
import JsonSelection.Proofs.Cache.Mutation
import JsonSelection.Proofs.Report.Provenance
import JsonSelection.Proofs.Schema.Closed
import JsonSelection.Proofs.Schema.Bodies
import JsonSelection.Proofs.Cache.Log
import JsonSelection.Proofs.Report.Isolation
import JsonSelection.Proofs.Query.Defaults
import JsonSelection.Proofs.Schema.OpaquePaths
import JsonSelection.Proofs.Schema.Mirroring
import JsonSelection.Proofs.Schema.Unseen
import JsonSelection.Proofs.Guarded.Typing
import JsonSelection.Proofs.Query.KeyFields
import JsonSelection.Proofs.Query.Relevance
import JsonSelection.Proofs.Query.Fitting
import JsonSelection.Proofs.Query.Inputs
import JsonSelection.Proofs.Budget.Fitting
import JsonSelection.Proofs.Query.Paging
import JsonSelection.Proofs.Query.Surrounding
import JsonSelection.Proofs.Sample.Disagreement
import JsonSelection.Proofs.Shape.Repetition
import JsonSelection.Proofs.Shape.Nulls
import JsonSelection.Proofs.Schema.BlockString
import JsonSelection.Proofs.Cost.Mirroring
import JsonSelection.Proofs.Cost.Agreement
import JsonSelection.Proofs.Cost.Levels
import JsonSelection.Proofs.Query.Mutations
import JsonSelection.Proofs.Query.Failing
import JsonSelection.Proofs.Query.Division
import JsonSelection.Proofs.DotPath
import JsonSelection.Proofs.CommandLine.Paging
import JsonSelection.Proofs.Paging.Detection
import JsonSelection.Proofs.Query.Coercion
