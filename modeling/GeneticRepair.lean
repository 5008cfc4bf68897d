import GeneticRepair.Evolution.Run
import GeneticRepair.Numeric.Binary64
import GeneticRepair.Numeric.Rational
import GeneticRepair.Proofs.Suite.Outcomes
import GeneticRepair.Syntax.Draft
import GeneticRepair.Syntax.Inspect
import GeneticRepair.Proofs.Assessment.Scoring
import GeneticRepair.Proofs.Assessment.Evaluation
import GeneticRepair.Proofs.Evolution.Assessed
import GeneticRepair.Proofs.Evolution.Repaired
import GeneticRepair.Proofs.Syntax.Copying
import GeneticRepair.Proofs.Syntax.Editing
import GeneticRepair.Proofs.Evolution.Descent
import GeneticRepair.Proofs.Suspicion.Covering
import GeneticRepair.Proofs.Assessment.Retesting
import GeneticRepair.Proofs.Assessment.Skipping
import GeneticRepair.Proofs.Assessment.Incremental
import GeneticRepair.Proofs.Syntax.Forest
import GeneticRepair.Proofs.Evolution.Versions
import GeneticRepair.Proofs.Syntax.Rearranging
import GeneticRepair.Proofs.Evolution.Crossing
import GeneticRepair.Proofs.Evolution.Sparing
import GeneticRepair.Proofs.Evolution.Undisturbed
import GeneticRepair.Proofs.Evolution.Statements
import GeneticRepair.Proofs.Evolution.Passage
import GeneticRepair.Proofs.Evolution.Accounts
import GeneticRepair.Proofs.Evolution.Veil
import GeneticRepair.Proofs.Evolution.Numbering
import GeneticRepair.Proofs.Evolution.Modes
import GeneticRepair.Proofs.Evolution.Confined
import GeneticRepair.Proofs.Evolution.Carried
import GeneticRepair.Proofs.Evolution.Provenance
import GeneticRepair.Proofs.Evolution.Tracking
import GeneticRepair.Proofs.Evolution.Relay
import GeneticRepair.Proofs.Evolution.Questions
import GeneticRepair.Proofs.Evolution.Borrowed
import GeneticRepair.Proofs.Suite.Timeouts
import GeneticRepair.Proofs.Assessment.InPlace
import GeneticRepair.Proofs.Assessment.Integrity
import GeneticRepair.Proofs.Collection.Related
import GeneticRepair.Proofs.Syntax.Pairing
import GeneticRepair.Proofs.Syntax.Mirroring
import GeneticRepair.Proofs.Evolution.Mirrored
import GeneticRepair.Proofs.Suspicion.Aligned
import GeneticRepair.Proofs.Assessment.Mirrored
import GeneticRepair.Proofs.Evolution.Lockstep
import GeneticRepair.Proofs.Evolution.Reordered
import GeneticRepair.Proofs.Evolution.Glances
import GeneticRepair.Proofs.Evolution.Prefix
import GeneticRepair.Proofs.Numeric.Exact
import GeneticRepair.Proofs.Collection.Ranked
import GeneticRepair.Proofs.Syntax.Marking
import GeneticRepair.Proofs.Suspicion.Spectra
import GeneticRepair.Proofs.Suspicion.Annotating
import GeneticRepair.Proofs.Suspicion.Pruning
import GeneticRepair.Proofs.Suspicion.Exactness
import GeneticRepair.Proofs.Suspicion.Commuting
import GeneticRepair.Proofs.Suspicion.Idempotence
import GeneticRepair.Proofs.Syntax.Places
import GeneticRepair.Proofs.Suspicion.Resolving
import GeneticRepair.Proofs.Syntax.Contents
import GeneticRepair.Proofs.Evolution.Diverging
import GeneticRepair.Proofs.Evolution.Swapping
import GeneticRepair.Proofs.Evolution.Targeting
import GeneticRepair.Proofs.Evolution.Slots
import GeneticRepair.Proofs.Evolution.Shares
import GeneticRepair.Proofs.Syntax.Navigating
import GeneticRepair.Proofs.Evolution.Operators
import GeneticRepair.Proofs.Syntax.Comparing
import GeneticRepair.Proofs.Syntax.Spans
import GeneticRepair.Proofs.Syntax.Walking
import GeneticRepair.Proofs.Syntax.Sessions
import GeneticRepair.Proofs.Scratch.Trees
import GeneticRepair.Proofs.Scratch.Isolation
import GeneticRepair.Proofs.Assessment.Leftovers
import GeneticRepair.Proofs.Syntax.Sources
import GeneticRepair.Proofs.Text.Words
import GeneticRepair.Proofs.Syntax.Reading
import GeneticRepair.Proofs.Suspicion.Coefficient
