import Propositional.Rule

/-!
# The rule for parentheses

Parentheses are needed in written formulas only, not in trees.
-/

namespace Propositional.Rule

/-- `(a)` becomes `a`. -/
def dropParens : Rule where
  name := "remove-parens"
  target := .parens
  appropriate _ _ := return true
  propose A h := do
    match ← A.shape h with
    | .parens inner => return .existing inner
    | shape => throw (.inapplicable "remove-parens" shape)

end Propositional.Rule
