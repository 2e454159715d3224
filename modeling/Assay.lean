import Assay.Main
import Assay.Generation.Script
import Assay.Toml.Writer
import Assay.Proofs.Frame
import Assay.Proofs.Value.WellFormed
import Assay.Proofs.Evaluation.Yields
import Assay.Proofs.Evaluation.ResultType
import Assay.Proofs.Evaluation.Typing
import Assay.Proofs.Evaluation.TwoFrames
import Assay.Proofs.Evaluation.WellFormed
import Assay.Proofs.Decimal.ReadBack
import Assay.Proofs.Decimal.Spelling
import Assay.Proofs.Evaluation.EarlyExit
import Assay.Proofs.Expr.Chain
import Assay.Proofs.Expr.Readable
import Assay.Proofs.Binary64.Order
import Assay.Proofs.Generation.Contract
import Assay.Proofs.Generation.Readable
import Assay.Proofs.Evaluation.Parentheses
import Assay.Proofs.Binary64.Product
import Assay.Proofs.Generation.Replay
import Assay.Proofs.Generation.Weights
import Assay.Proofs.Generation.Viable
import Assay.Proofs.Generation.Grammar
import Assay.Proofs.Evaluation.Speculation
import Assay.Proofs.Generation.Depth
import Assay.Proofs.Evaluation.PointerDifference
import Assay.Proofs.Generation.Checked
import Assay.Proofs.Evaluation.Session
import Assay.Proofs.Evaluation.PointerOffset
import Assay.Proofs.Evaluation.Addresses
import Assay.Proofs.Evaluation.OwnMemory
import Assay.Proofs.Evaluation.MoreMemory
import Assay.Proofs.Generation.Unanswered
import Assay.Proofs.Generation.Truncated
import Assay.Proofs.Generation.Scripted
import Assay.Proofs.Generation.Reach
import Assay.Proofs.Generation.Equipped
import Assay.Proofs.Evaluation.Division
import Assay.Proofs.Generation.Overlay
import Assay.Proofs.Binary64.Dyadic
import Assay.Proofs.Evaluation.FloatingCast
import Assay.Proofs.Ty.Widening
import Assay.Proofs.Evaluation.Residues
import Assay.Proofs.Evaluation.Shift
import Assay.Proofs.Evaluation.Comparison
import Assay.Proofs.Evaluation.PointerReturn
import Assay.Proofs.Evaluation.Place
import Assay.Proofs.Evaluation.Origin
import Assay.Proofs.Evaluation.Indexing
import Assay.Proofs.Evaluation.Underlying
import Assay.Proofs.Value.Conversion
import Assay.Proofs.Evaluation.OperandOrder
import Assay.Proofs.Ty.Layout
import Assay.Proofs.Generation.Serving
import Assay.Proofs.Evaluation.Literal
import Assay.Proofs.Expr.IntegerLiteral
import Assay.Proofs.SourceType
import Assay.Proofs.Generation.Shape
import Assay.Proofs.Value.SingleConversion
import Assay.Proofs.Generation.TotalWeight
import Assay.Proofs.Expr.Tokens
import Assay.Proofs.Trapping.Evaluation
import Assay.Proofs.Mask.Elements
