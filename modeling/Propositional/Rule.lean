import Propositional.Arena.Basic
import Propositional.Candidate

/-!
# Rules

A rule is one law of simplification. It is meant for nodes of one sort, it can look at an arena but
not change it, and it may refuse what it proposes itself: a proposal that would leave an equal tree
is no progress.
-/

namespace Propositional

structure Rule where
  name : String
  target : Variant
  appropriate : Arena → Handle → Checked Bool
  propose : Arena → Handle → Checked Candidate
  /-- Whether a proposal for a node is worth its while. -/
  accept : Arena → Handle → Candidate → Checked Bool := fun _ _ _ => return true

end Propositional
