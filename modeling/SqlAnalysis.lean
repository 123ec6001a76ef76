import SqlAnalysis.Catalog.Sample
import SqlAnalysis.StatementTest
import SqlAnalysis.Main
import SqlAnalysis.Proofs.Analysis.LifeCycle
import SqlAnalysis.Proofs.Operator.ReturnType
import SqlAnalysis.Proofs.Validator.ParameterTypes
import SqlAnalysis.Proofs.Validator.OutputNames
import SqlAnalysis.Proofs.Validator.Arena
import SqlAnalysis.Proofs.Validator.WholeNumber
import SqlAnalysis.Proofs.Validator.Location
import SqlAnalysis.Proofs.Catalog.Listing
import SqlAnalysis.Proofs.Operator.Concatenation
import SqlAnalysis.Proofs.Operator.Symmetric
import SqlAnalysis.Proofs.Script.Innermost
import SqlAnalysis.Proofs.Source.Position
import SqlAnalysis.Proofs.Suggestion
import SqlAnalysis.Proofs.Tree.Equality
