import TruthLint.Text.Lines
import TruthLint.Text.Search
import TruthLint.Text.Reader
import TruthLint.Cst.Row
import TruthLint.Cst.Fault
import TruthLint.Cst.Archive
import TruthLint.Number.Literal
import TruthLint.Expr.Lowering
import TruthLint.Scope.Symbols
import TruthLint.Outline.Basic
import TruthLint.Classification
import TruthLint.Visit
import TruthLint.SourceFile
import TruthLint.Diagnostic
import TruthLint.Rule.Operator
import TruthLint.Rule.Comparison
import TruthLint.Analysis
import TruthLint.Reduction.Reducer
import TruthLint.Report.Document
import TruthLint.Report.Explanation
import TruthLint.Report.Listing
import TruthLint.Toml.Document
import TruthLint.FileSystem.Basic
import TruthLint.Config.Lookup
import TruthLint.Command.Run
import TruthLint.Main
import TruthLint.Proofs.Analysis.Report
import TruthLint.Proofs.Reduction.Run
import TruthLint.Proofs.Scope.Resolution
import TruthLint.Proofs.Rule.Mirror
import TruthLint.Proofs.Rule.Truncation
import TruthLint.Proofs.Outline.Parts
import TruthLint.Proofs.Scope.Rooted
import TruthLint.Proofs.Model.Extends
import TruthLint.Proofs.Outline.Regular
import TruthLint.Proofs.Outline.Related
import TruthLint.Proofs.Expr.Operands
import TruthLint.Proofs.Model.WellFormed
import TruthLint.Proofs.Cst.Tree
import TruthLint.Proofs.Cst.Prune
import TruthLint.Proofs.Model.SyntaxErrors
import TruthLint.Proofs.Expr.Reads
import TruthLint.Proofs.Outline.Lowered
import TruthLint.Proofs.Model.Lowered
import TruthLint.Proofs.Suppression.Directives
import TruthLint.Proofs.Analysis.Restriction
import TruthLint.Proofs.Analysis.Suppression
import TruthLint.Proofs.Analysis.Independence
import TruthLint.Proofs.Reduction.Minimality
import TruthLint.Proofs.Expr.Path
import TruthLint.Proofs.Visit.Calls
import TruthLint.Proofs.Expr.WrittenName
import TruthLint.Proofs.Model.Containers
import TruthLint.Proofs.Model.Members
import TruthLint.Proofs.Reduction.Comments
import TruthLint.Proofs.Reduction.Transcript
import TruthLint.Proofs.Model.OwnRoots
import TruthLint.Proofs.Model.Reached
import TruthLint.Proofs.Expr.SpacedName
import TruthLint.Proofs.Model.QualifiedCalls
import TruthLint.Proofs.Model.Bodies
import TruthLint.Proofs.Model.DefaultValues
import TruthLint.Proofs.Model.Conditions
import TruthLint.Proofs.Model.ScopeLines
import TruthLint.Proofs.Outline.NamespaceName
import TruthLint.Proofs.Model.Namespaces
import TruthLint.Proofs.Outline.Wrappers
import TruthLint.Proofs.Outline.DeclaredType
import TruthLint.Proofs.Outline.DeclaredFunction
import TruthLint.Proofs.Model.Prototypes
import TruthLint.Proofs.Scope.Ancestors
import TruthLint.Proofs.Scope.Forest
import TruthLint.Proofs.Scope.DeclarationOrder
import TruthLint.Proofs.Rule.Comparison
import TruthLint.Proofs.Rule.Conversion
import TruthLint.Proofs.Rule.DeclarationOrder
import TruthLint.Proofs.Rule.Exclusion
import TruthLint.Proofs.Analysis.Setup
import TruthLint.Proofs.Reduction.Bounds
import TruthLint.Proofs.Reduction.Canonical
import TruthLint.Proofs.Reduction.Reuse
import TruthLint.Proofs.Suppression.BlockComments
import TruthLint.Proofs.Outline.Order
import TruthLint.Proofs.Model.SourceOrder
import TruthLint.Proofs.Model.Height
import TruthLint.Proofs.Cst.Parentheses
import TruthLint.Proofs.Expr.Parentheses
import TruthLint.Proofs.Number.IntegerLiteral
import TruthLint.Proofs.Number.FloatLiteral
import TruthLint.Proofs.Cst.Faults
import TruthLint.Proofs.Text.Lines
import TruthLint.Proofs.Reduction.BlockGrammar
import TruthLint.Proofs.Config.Nearest
import TruthLint.Proofs.Model.LambdaSearch
