import Propositional.Rule.ChainReduction
import Propositional.Rule.LiteralOperand
import Propositional.Rule.Negation
import Propositional.Rule.Parentheses

/-!
# The rules of the library

The order matters only between rules for one sort of node: literals are folded before chains are
reduced.
-/

namespace Propositional.Rule

/-- All rules of the library, in the order in which they are tried. -/
def builtin : List Rule :=
  [deMorgan, invertLiteral, doubleNegation, literalOperand, chainReduction, dropParens]

def builtin? (name : String) : Option Rule := builtin.find? fun rule => rule.name = name

end Propositional.Rule
