import Formula.Parsed
import Formula.Proofs.Calls
import Formula.Proofs.Children
import Formula.Proofs.Earliest
import Formula.Proofs.Height
import Formula.Proofs.Insertion
import Formula.Proofs.Language
import Formula.Proofs.Limits
import Formula.Proofs.Lines
import Formula.Proofs.Location
import Formula.Proofs.Marks
import Formula.Proofs.Matching
import Formula.Proofs.Numbers
import Formula.Proofs.Order
import Formula.Proofs.Precedence
import Formula.Proofs.Reach
import Formula.Proofs.Safety
import Formula.Proofs.Scanning
import Formula.Proofs.Serial
import Formula.Proofs.Spacing
import Formula.Proofs.Termination
import Formula.Proofs.Walks
