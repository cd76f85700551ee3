import QueryContract.Interchange.StatementJson
import QueryContract.Main
import QueryContract.Proofs.Naming.FreeNumber
import QueryContract.Proofs.Contract.Recording
import QueryContract.Proofs.Naming.Distinct
import QueryContract.Proofs.Contract.Merging
import QueryContract.Proofs.Contract.FirstFault
import QueryContract.Proofs.Contract.Reconciliation
import QueryContract.Proofs.Contract.Collecting
import QueryContract.Proofs.Grammar.Runs
import QueryContract.Proofs.Grammar.Forest
import QueryContract.Proofs.Grammar.Nesting
import QueryContract.Proofs.Grammar.VariableLines
import QueryContract.Proofs.Text.Trimming
import QueryContract.Proofs.Grammar.Acceptance
import QueryContract.Proofs.Artifact.Escaping
import QueryContract.Proofs.Artifact.Marking
import QueryContract.Proofs.Artifact.Containment
import QueryContract.Proofs.Artifact.Safety
import QueryContract.Proofs.Contract.Operations
import QueryContract.Proofs.Grammar.Statements
import QueryContract.Proofs.Contract.Aggregation
import QueryContract.Proofs.Artifact.DoubleQuoted
import QueryContract.Proofs.Run.Generation
import QueryContract.Proofs.Text.NaturalWalk
import QueryContract.Proofs.Contract.Grouping
import QueryContract.Proofs.Contract.Compatibility
import QueryContract.Proofs.Contract.Growth
import QueryContract.Proofs.Contract.Silence
import QueryContract.Proofs.Contract.Reporting
import QueryContract.Proofs.Grammar.Composition
import QueryContract.Proofs.Contract.Provenance
import QueryContract.Proofs.Files.Resolving
import QueryContract.Proofs.Run.Provenance
import QueryContract.Proofs.Artifact.Callables
import QueryContract.Proofs.Artifact.Overview
import QueryContract.Proofs.Run.DryRun
import QueryContract.Proofs.Run.Repetition
import QueryContract.Proofs.Artifact.Parameters
import QueryContract.Proofs.Text.Quoting
import QueryContract.Proofs.Interchange.Tokens
import QueryContract.Proofs.Interchange.Numerals
import QueryContract.Proofs.Interchange.Building
import QueryContract.Proofs.Interchange.Printing
import QueryContract.Proofs.Interchange.Statements
import QueryContract.Proofs.CommandLine.Reporting
import QueryContract.Proofs.Grammar.Comments
import QueryContract.Proofs.Artifact.Defaults
import QueryContract.Proofs.Naming.Numbering
import QueryContract.Proofs.Files.Finding
import QueryContract.Proofs.Grammar.QuotedDefaults
import QueryContract.Proofs.Text.DigitRuns
import QueryContract.Proofs.Contract.Reordering
import QueryContract.Proofs.Contract.Stripping
import QueryContract.Proofs.Files.Respelling
import QueryContract.Proofs.Files.Repetitions
import QueryContract.Proofs.Contract.LeadingKeyword
import QueryContract.Proofs.Artifact.NamePlace
import QueryContract.Proofs.Contract.Variants
import QueryContract.Proofs.Artifact.LineBreaks
import QueryContract.Proofs.Grammar.BareDirectives
import QueryContract.Proofs.Grammar.OpenGroups
import QueryContract.Proofs.Naming.Words
import QueryContract.Proofs.Naming.Methods
