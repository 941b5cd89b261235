import Propositional.Formula
import Propositional.Handle

/-!
# Candidates

What a rule proposes in place of a node: a formula with new nodes, some leaves of which stand for
subtrees that are already in the arena and are to be moved, not copied.
-/

namespace Propositional

inductive Candidate where
  | existing (node : Handle)
  | binary (op : Connective) (left right : Candidate)
  | not (operand : Candidate)
  | parens (inner : Candidate)
  | id (name : String)
  | literal (value : Bool)
  deriving DecidableEq, Repr

namespace Candidate

/-- The chain `((a op b) op c) op …` of some candidates; a single one is its own chain. -/
def leftChain? (op : Connective) : List Candidate → Option Candidate
  | [] => none
  | first :: later => some (later.foldl (binary op) first)

def freshCount : Candidate → Nat
  | existing _ => 0
  | binary _ left right => 1 + left.freshCount + right.freshCount
  | not operand => 1 + operand.freshCount
  | parens inner => 1 + inner.freshCount
  | id _ | literal _ => 1

/-- The nodes of the arena that the candidate refers to, from left to right. -/
def moved : Candidate → List Handle
  | existing node => [node]
  | binary _ left right => left.moved ++ right.moved
  | not operand => operand.moved
  | parens inner => inner.moved
  | id _ | literal _ => []

end Candidate

/-- A formula as a candidate that refers to no node. -/
def Formula.toCandidate : Formula → Candidate
  | binary op left right => .binary op left.toCandidate right.toCandidate
  | not operand => .not operand.toCandidate
  | parens inner => .parens inner.toCandidate
  | id name => .id name
  | literal value => .literal value

theorem Formula.moved_toCandidate (f : Formula) : f.toCandidate.moved = [] := by
  induction f with
  | binary op left right ihl ihr => simp [toCandidate, Candidate.moved, ihl, ihr]
  | not operand ih => simpa [toCandidate, Candidate.moved] using ih
  | parens inner ih => simpa [toCandidate, Candidate.moved] using ih
  | id name => rfl
  | literal value => rfl

end Propositional
