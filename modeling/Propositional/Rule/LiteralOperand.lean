import Propositional.Arena.Chain
import Propositional.Rule

/-!
# The rule for literals below connectives

The neutral literal of a connective vanishes, and the absorbing one takes over.
-/

namespace Propositional.Rule

def literal? (A : Arena) (h : Handle) : Checked (Option Bool) := do
  match ← A.shape (← A.peel h) with
  | .literal value => return some value
  | _ => return none

/-- The first operand of a binary node that is a literal, with the other operand. -/
def literalOperand? (A : Arena) : Shape Handle → Checked (Option (Bool × Handle))
  | .binary _ left right => do
    match ← literal? A left with
    | some value => return some (value, right)
    | none =>
      match ← literal? A right with
      | some value => return some (value, left)
      | none => return none
  | _ => return none

/-- `TRUE AND a` becomes `a` and `FALSE AND a` becomes `FALSE`; for `OR` it is the other way
round. -/
def literalOperand : Rule where
  name := "binary-literal"
  target := .binary
  appropriate A h := return (← literalOperand? A (← A.shape h)).isSome
  propose A h := do
    let shape ← A.shape h
    match shape, ← literalOperand? A shape with
    | .binary op _ _, some (value, other) =>
      if value = op.neutral then return .existing other else return .literal op.absorbing
    | _, _ => throw (.inapplicable "binary-literal" shape)

end Propositional.Rule
