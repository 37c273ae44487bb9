import CallGuard.Value.Induction
import CallGuard.Checker.Induction
import CallGuard.Checker.Probe
import CallGuard.Guard.Config
import CallGuard.Inspect.Guard
import CallGuard.Proofs.Conversion
import CallGuard.Proofs.Likeness
import CallGuard.Proofs.Policies
import CallGuard.Proofs.Presence
import CallGuard.Proofs.Locations
import CallGuard.Proofs.Remaining
import CallGuard.Proofs.Stacks
import CallGuard.Proofs.Hierarchy
import CallGuard.Proofs.Contexts
import CallGuard.Proofs.Reflexivity
import CallGuard.Proofs.Course
import CallGuard.Proofs.Acceptance
import CallGuard.Proofs.Bindings
import CallGuard.Proofs.Records
import CallGuard.Proofs.Markers
import CallGuard.Proofs.Reports
import CallGuard.Proofs.Renderings
import CallGuard.Proofs.Exactness
import CallGuard.Proofs.Normalisation
import CallGuard.Proofs.Spelling
import CallGuard.Proofs.Histories
