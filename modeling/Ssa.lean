import Ssa.Exec.Scalar
import Ssa.Main
import Ssa.Program.Notation
import Ssa.Proofs.Command.Endings
import Ssa.Proofs.Exec.Confined
import Ssa.Proofs.Exec.Formats
import Ssa.Proofs.Exec.Initials
import Ssa.Proofs.Exec.Integers
import Ssa.Proofs.Exec.Nulls
import Ssa.Proofs.Exec.Ordered
import Ssa.Proofs.Exec.Parallel
import Ssa.Proofs.Exec.Recased
import Ssa.Proofs.Exec.Recursive
import Ssa.Proofs.Exec.Remaining
import Ssa.Proofs.Exec.Respelled
import Ssa.Proofs.Exec.Retyped
import Ssa.Proofs.Exec.Stacked
import Ssa.Proofs.Exec.Truncated
import Ssa.Proofs.Exec.Unlisted
import Ssa.Proofs.Failure.Catalogue
import Ssa.Proofs.Registry.History
import Ssa.Proofs.Session.Attempts
import Ssa.Proofs.Session.Emission
import Ssa.Proofs.Session.Forwarded
import Ssa.Proofs.Session.Furnished
import Ssa.Proofs.Session.Lifetimes
import Ssa.Proofs.Session.Listing
import Ssa.Proofs.Session.Names
import Ssa.Proofs.Session.Passing
import Ssa.Proofs.Session.Refusals
import Ssa.Proofs.Session.Separate
import Ssa.Proofs.Session.Turns
import Ssa.Proofs.Target.Triple
import Ssa.Registry.Owners
import Ssa.Script.Step
