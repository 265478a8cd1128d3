import SExprReflow.Main
import SExprReflow.Proofs.ReadBack
import SExprReflow.Proofs.Conservation
import SExprReflow.Proofs.Run
import SExprReflow.Proofs.Within
import SExprReflow.Proofs.Content
import SExprReflow.Proofs.LookAhead
import SExprReflow.Proofs.Accounting
import SExprReflow.Proofs.Snapshot
import SExprReflow.Proofs.WhiteSpace
import SExprReflow.Proofs.Lines
import SExprReflow.Proofs.Enclosing
import SExprReflow.Proofs.OneLineList
import SExprReflow.Proofs.ColumnBound
import SExprReflow.Proofs.Grammar
import SExprReflow.Proofs.TopLevel
import SExprReflow.Proofs.Placement
import SExprReflow.Proofs.LineEnds
import SExprReflow.Proofs.Segment
import SExprReflow.Proofs.Children
import SExprReflow.Proofs.Shortform
import SExprReflow.Proofs.Wrapping
import SExprReflow.Proofs.Closing
import SExprReflow.Proofs.CompactChild
import SExprReflow.Proofs.Moves
import SExprReflow.Proofs.Acceptance
import SExprReflow.Proofs.OptionSettings
import SExprReflow.Proofs.OpenLists
import SExprReflow.Proofs.LinePieces
import SExprReflow.Proofs.Wrappers
import SExprReflow.Proofs.Ending
import SExprReflow.Proofs.Files
import SExprReflow.Proofs.Failures
import SExprReflow.Proofs.Progress
import SExprReflow.Proofs.Measure
