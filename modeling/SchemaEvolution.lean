import SchemaEvolution.Text.Blank
import SchemaEvolution.Names
import SchemaEvolution.Number.Shortest
import SchemaEvolution.Json.Parser
import SchemaEvolution.Json.Printer
import SchemaEvolution.Keyword
import SchemaEvolution.Version
import SchemaEvolution.Schema.Decode
import SchemaEvolution.Diff
import SchemaEvolution.Record
import SchemaEvolution.Pattern.Comparison
import SchemaEvolution.Pattern.Parser
import SchemaEvolution.Pattern.Property
import SchemaEvolution.Pattern.EmptyMatch
import SchemaEvolution.Pattern.BestEffort
import SchemaEvolution.Yaml.Document
import SchemaEvolution.Source
import SchemaEvolution.Command.Arguments
import SchemaEvolution.Main
import SchemaEvolution.Proofs.Mirror
import SchemaEvolution.Proofs.Visits
import SchemaEvolution.Proofs.EmptyDiff
import SchemaEvolution.Proofs.Compatibility
import SchemaEvolution.Proofs.DistinctDocuments
import SchemaEvolution.Proofs.Shapes
import SchemaEvolution.Proofs.Classification
import SchemaEvolution.Proofs.Releases
import SchemaEvolution.Proofs.Requirements
import SchemaEvolution.Proofs.Pattern.Matching
import SchemaEvolution.Proofs.Pattern.Pieces
import SchemaEvolution.Proofs.Pattern.Tails
import SchemaEvolution.Proofs.Pattern.Actions
import SchemaEvolution.Proofs.Pattern.Anchors
import SchemaEvolution.Proofs.Pattern.InStep
import SchemaEvolution.Proofs.Pattern.Branches
import SchemaEvolution.Proofs.Pattern.Relation
import SchemaEvolution.Proofs.Grammar
import SchemaEvolution.Proofs.Values
import SchemaEvolution.Proofs.Pairs
import SchemaEvolution.Proofs.Verdicts
import SchemaEvolution.Proofs.Twins
import SchemaEvolution.Proofs.Overlay
import SchemaEvolution.Proofs.Spelling
import SchemaEvolution.Proofs.Respelling
import SchemaEvolution.Proofs.Nesting
import SchemaEvolution.Proofs.NumericLimits
import SchemaEvolution.Proofs.Elements
import SchemaEvolution.Proofs.Arrays
import SchemaEvolution.Proofs.History
import SchemaEvolution.Proofs.Pattern.Converse
import SchemaEvolution.Proofs.Reversal
import SchemaEvolution.Proofs.Defaults
import SchemaEvolution.Proofs.Explicit
import SchemaEvolution.Proofs.Interchange
import SchemaEvolution.Proofs.Forms
import SchemaEvolution.Proofs.Pointers
import SchemaEvolution.Proofs.Faults
import SchemaEvolution.Proofs.Commands
import SchemaEvolution.Proofs.Folder
import SchemaEvolution.Proofs.JsonTexts
import SchemaEvolution.Proofs.Records
import SchemaEvolution.Proofs.Agreement
import SchemaEvolution.Proofs.Consistency
import SchemaEvolution.Proofs.Options
import SchemaEvolution.Proofs.Literals
import SchemaEvolution.Proofs.Divisors
import SchemaEvolution.Proofs.Pattern.Words
import SchemaEvolution.Proofs.Pattern.Escapes
import SchemaEvolution.Proofs.VersionTexts
import SchemaEvolution.Proofs.GreatestBump
import SchemaEvolution.Proofs.PathTexts
import SchemaEvolution.Proofs.Pattern.Cuts
import SchemaEvolution.Proofs.Lines
import SchemaEvolution.Proofs.Changelog
