import Propositional.Arena.Compare
import Propositional.Arena.Display
import Propositional.Arena.Dot
import Propositional.Arena.Enter
import Propositional.Arena.Walk
import Propositional.Optimizer.Pass
import Propositional.Proofs.Arena.RoundTrip
import Propositional.Proofs.Arena.Refusal
import Propositional.Proofs.Optimizer.Engine
import Propositional.Proofs.Optimizer.Fixpoint
import Propositional.Proofs.Optimizer.Frame
import Propositional.Proofs.Optimizer.Idle
import Propositional.Proofs.Optimizer.Independence
import Propositional.Proofs.Optimizer.Normalization
import Propositional.Proofs.Session
import Propositional.Proofs.Arena.Rearrangement
import Propositional.Proofs.Arena.Prediction
import Propositional.Proofs.Optimizer.Position
import Propositional.Proofs.Table.History
import Propositional.Proofs.Token.Segmentation
import Propositional.Proofs.Optimizer.Visits
import Propositional.Proofs.Rule.ChainReduction
import Propositional.Proofs.Optimizer.Occurrences
import Propositional.Proofs.Optimizer.RuleOrder
import Propositional.Proofs.Arena.Parentheses
import Propositional.Proofs.Arena.Descent
import Propositional.Proofs.Arena.Drawing
import Propositional.Proofs.Arena.Labels
import Propositional.Proofs.Token.Interleaving
import Propositional.Proofs.Arena.Inspection
import Propositional.Proofs.Arena.Comparison
