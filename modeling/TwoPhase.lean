import TwoPhase.Main
import TwoPhase.Problem.Display
import TwoPhase.Proofs.Problem.Check
import TwoPhase.Proofs.Problem.Safety
import TwoPhase.Scalar.Rational
import TwoPhase.Tableau.Numbered
import TwoPhase.Proofs.Partition
import TwoPhase.Proofs.Problem.Cap
import TwoPhase.Proofs.Tableau.Rearrangement
import TwoPhase.Proofs.Binary64.Packing
import TwoPhase.Proofs.Binary64.Arithmetic
import TwoPhase.Proofs.Decimal.Reading
import TwoPhase.Proofs.Tableau.Growth
import TwoPhase.Proofs.Report
import TwoPhase.Proofs.Problem.Overflow
import TwoPhase.Proofs.Sequence
import TwoPhase.Proofs.Cycle
import TwoPhase.Proofs.Binary64.Bits
import TwoPhase.Proofs.Problem.Dense
import TwoPhase.Proofs.Text.Words
import TwoPhase.Proofs.Problem.Reading
import TwoPhase.Problem.Edit
import TwoPhase.Proofs.Problem.WellFormed
import TwoPhase.Proofs.Problem.Progress
import TwoPhase.Proofs.Auxiliary
import TwoPhase.Proofs.Problem.Auxiliary
import TwoPhase.Proofs.Binary64.Negation
import TwoPhase.Proofs.Problem.Mirror
import TwoPhase.Tableau.InPlace
import TwoPhase.Proofs.Refusal
import TwoPhase.Proofs.Tableau.Undo
import TwoPhase.Proofs.Tableau.Leaving
import TwoPhase.Proofs.Tableau.Entering
import TwoPhase.Proofs.Problem.Beginning
import TwoPhase.Proofs.Problem.Stopping
import TwoPhase.Proofs.Problem.Malformed
import TwoPhase.Proofs.Report.Thousandths
import TwoPhase.Proofs.Binary64.Closest
import TwoPhase.Proofs.Report.ReadBack
import TwoPhase.Proofs.Binary64.Sign
import TwoPhase.Proofs.CommandLine.Command
import TwoPhase.Proofs.Decimal.Plain
import TwoPhase.Proofs.Problem.Text
import TwoPhase.Proofs.Problem.Labels
import TwoPhase.Proofs.Arrival
import TwoPhase.Proofs.Binary64.Product
import TwoPhase.Proofs.Negation
import TwoPhase.Proofs.AuxiliaryRow
