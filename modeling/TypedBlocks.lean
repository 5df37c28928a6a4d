import TypedBlocks.Session.Checker
import TypedBlocks.Proofs.Pattern
import TypedBlocks.Proofs.Hierarchy.Order
import TypedBlocks.Proofs.Template
import TypedBlocks.Proofs.TypeExpr
import TypedBlocks.Proofs.TypeExpr.Grammar
import TypedBlocks.Proofs.TypeExpr.Render
import TypedBlocks.Proofs.Hierarchy.Linked
import TypedBlocks.Proofs.Hierarchy.Paths
import TypedBlocks.Proofs.Hierarchy.Names
import TypedBlocks.Proofs.Hierarchy.ReadBack
import TypedBlocks.Proofs.Hierarchy.Routes
import TypedBlocks.Proofs.Nearest.Bounds
import TypedBlocks.Proofs.Nearest.Between
import TypedBlocks.Proofs.Recursion.Chain
import TypedBlocks.Proofs.Recursion.Ends
import TypedBlocks.Proofs.Session.Unify
import TypedBlocks.Proofs.Session.Binding
import TypedBlocks.Proofs.Session.Known
import TypedBlocks.Proofs.Subtype.Confirm
import TypedBlocks.Proofs.Subtype.Sound
import TypedBlocks.Proofs.Subtype.Transitive
import TypedBlocks.Proofs.Session.Reads
import TypedBlocks.Proofs.Session.Typing
import TypedBlocks.Proofs.Session.Connects
import TypedBlocks.Proofs.Session.Depth
import TypedBlocks.Proofs.Workspace.Ring
import TypedBlocks.Proofs.Session.Recall
import TypedBlocks.Proofs.Session.Checks
import TypedBlocks.Proofs.Session.Ends
import TypedBlocks.Proofs.Session.Steady
import TypedBlocks.Proofs.Session.Failed
import TypedBlocks.Proofs.Session.Unbind
import TypedBlocks.Proofs.Nearest.Copies
import TypedBlocks.Proofs.Nearest.Apart
import TypedBlocks.Proofs.Hierarchy.Alike
import TypedBlocks.Proofs.Nearest.Unordered
import TypedBlocks.Proofs.Nearest.Extremal
import TypedBlocks.Proofs.Hierarchy.Reordered
import TypedBlocks.Proofs.Session.Assigned
import TypedBlocks.Proofs.Session.Series
import TypedBlocks.Proofs.Session.Recorded
import TypedBlocks.Proofs.Session.Incomparable
import TypedBlocks.Proofs.Definition.Faults
import TypedBlocks.Proofs.Session.Versions
import TypedBlocks.Proofs.Hierarchy.Cycle
import TypedBlocks.Proofs.Session.Local
import TypedBlocks.Proofs.Recursion.Accepted
import TypedBlocks.Proofs.Hierarchy.Closure
import TypedBlocks.Proofs.Json.Pointer
import TypedBlocks.Proofs.Nearest.Places
import TypedBlocks.Proofs.Nearest.Heads
