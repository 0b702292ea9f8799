import LexSimplex.Arithmetic.Binary
import LexSimplex.Arithmetic.Exact
import LexSimplex.Semantics
import LexSimplex.Solver.Session
import LexSimplex.Solver.Text
import LexSimplex.Proofs.Consistency
import LexSimplex.Proofs.Meaning
import LexSimplex.Proofs.HardRequests
import LexSimplex.Proofs.FeasibleRemovals
import LexSimplex.Proofs.Lexicographic
import LexSimplex.Proofs.Penalties
import LexSimplex.Proofs.Descent
import LexSimplex.Proofs.Optimality
import LexSimplex.Proofs.Cycles
import LexSimplex.Proofs.Satisfiability
import LexSimplex.Proofs.Resets
import LexSimplex.Proofs.Nearness
import LexSimplex.Proofs.Boundedness
import LexSimplex.Proofs.Violations
import LexSimplex.Proofs.Orders
import LexSimplex.Proofs.Costs
import LexSimplex.Proofs.Groups
import LexSimplex.Proofs.Changes
import LexSimplex.Proofs.Moves
import LexSimplex.Proofs.HiddenConstraints
import LexSimplex.Proofs.FoldCounts
import LexSimplex.Proofs.Bookkeeping
import LexSimplex.Proofs.Repinning
import LexSimplex.Proofs.Fixtures
import LexSimplex.Proofs.FoldedValues
import LexSimplex.Proofs.Stability
import LexSimplex.Proofs.NewVariables
import LexSimplex.Proofs.ReusedHandles
import LexSimplex.Proofs.SoftRequests
import LexSimplex.Proofs.PinnedValues
import LexSimplex.Proofs.Arenas
import LexSimplex.Proofs.Ties
import LexSimplex.Proofs.Layouts
import LexSimplex.Proofs.Externals
import LexSimplex.Proofs.Comparisons
