import Propositional.Arena.Splice
import Propositional.Formula.Reader

/-!
# Entering written formulas

A text that can be read becomes a tree below a new root. Of a text that cannot, the subformulas that
were complete are entered and taken out again, so that the nodes are as before and only the order in
which vacant cells will be reused has changed.
-/

namespace Propositional.Arena

/-- Adds formulas one after the other. Answers all new nodes in the order of their addition. -/
def graftAll (A : Arena) : List Formula → Checked (List Handle × Arena)
  | [] => return ([], A)
  | f :: later => do
    let (_, fresh, A) ← A.graft f.toCandidate
    let (freshLater, A) ← A.graftAll later
    return (fresh ++ freshLater, A)

def takeAll (A : Arena) (nodes : List Handle) : Checked Arena :=
  nodes.foldlM (fun A h => return (← A.take h).2) A

/-- Enters the formula that a text stands for, and answers its root. -/
def enter (A : Arena) (input : String) : Checked (Except SyntaxError Handle × Arena) := do
  match Formula.read input with
  | .ok f =>
    let (h, _, A) ← A.graft f.toCandidate
    let (root, A) ← A.addRoot h
    return (.ok root, A)
  | .error failure =>
    let (fresh, A) ← A.graftAll failure.completed
    return (.error failure.error, ← A.takeAll fresh)

end Propositional.Arena
