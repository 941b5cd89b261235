import Propositional.Arena.Chain
import Propositional.Rule

/-!
# Rules for negations

A negation is pushed into a binary node below it, swallowed by a literal, or cancelled against
another negation. Parentheses around its operand do not matter.
-/

namespace Propositional.Rule

def operand (A : Arena) (h : Handle) : Checked (Shape Handle) := do
  match ← A.shape h with
  | .not child => A.shape (← A.peel child)
  | shape => throw (.notNegation h shape)

/-- `NOT (a AND b)` becomes `NOT a OR NOT b`, and `NOT (a OR b)` becomes `NOT a AND NOT b`. -/
def deMorgan : Rule where
  name := "de-morgan"
  target := .not
  appropriate A h := return (← operand A h).variant = .binary
  propose A h := do
    match ← operand A h with
    | .binary op left right =>
      return .binary op.flip (.not (.existing left)) (.not (.existing right))
    | shape => throw (.inapplicableBelowNot "de-morgan" shape)

/-- `NOT TRUE` becomes `FALSE`, and `NOT FALSE` becomes `TRUE`. -/
def invertLiteral : Rule where
  name := "invert-literal"
  target := .not
  appropriate A h := return (← operand A h).variant = .literal
  propose A h := do
    match ← operand A h with
    | .literal value => return .literal (!value)
    | shape => throw (.inapplicableBelowNot "invert-literal" shape)

/-- `NOT NOT a` becomes `a`. -/
def doubleNegation : Rule where
  name := "not-not"
  target := .not
  appropriate A h := return (← operand A h).variant = .not
  propose A h := do
    match ← operand A h with
    | .not inner => return .existing inner
    | shape => throw (.inapplicableBelowNot "not-not" shape)

end Propositional.Rule
