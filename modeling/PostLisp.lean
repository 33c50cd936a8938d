import PostLisp.Main
import PostLisp.Repl.Completion
import PostLisp.Repl.Highlight
import PostLisp.Proofs.Layout
import PostLisp.Proofs.Recursion
import PostLisp.Proofs.Memo
import PostLisp.Proofs.Identity
import PostLisp.Proofs.Recompute
import PostLisp.Proofs.Decimals
import PostLisp.Proofs.Printing
import PostLisp.Proofs.Confinement
import PostLisp.Proofs.DepthLimit
import PostLisp.Proofs.Slices
import PostLisp.Proofs.ErrorSpans
import PostLisp.Proofs.Reordering
import PostLisp.Proofs.Interchange
import PostLisp.Proofs.WithinText
import PostLisp.Proofs.Balance
import PostLisp.Proofs.CallTrees
import PostLisp.Proofs.Pairs
import PostLisp.Proofs.Offenders
import PostLisp.Proofs.MoreGlobals
import PostLisp.Proofs.Bookkeeping
import PostLisp.Proofs.ResultsStay
import PostLisp.Proofs.Leaves
import PostLisp.Proofs.MaximalMunch
import PostLisp.Proofs.ExactValues
import PostLisp.Proofs.ExactArithmetic
import PostLisp.Proofs.ReportPlaces
import PostLisp.Proofs.Colours
import PostLisp.Proofs.Completing
import PostLisp.Proofs.CommandLine
