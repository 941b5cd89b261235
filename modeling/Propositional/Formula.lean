import Propositional.Connective

/-!
# Formulas

A formula as it was written: parentheses are kept as nodes of their own, so that two formulas are
equal only if they were grouped alike.
-/

namespace Propositional

inductive Formula where
  | binary (op : Connective) (left right : Formula)
  | not (operand : Formula)
  | parens (inner : Formula)
  | id (name : String)
  | literal (value : Bool)
  deriving DecidableEq, Repr

namespace Formula

/-- The value under an assignment of the names. -/
def eval (assignment : String → Bool) : Formula → Bool
  | binary op left right => op.apply (left.eval assignment) (right.eval assignment)
  | not operand => !operand.eval assignment
  | parens inner => inner.eval assignment
  | id name => assignment name
  | literal value => value

/-- The formula under a number of negations. -/
def negated : Nat → Formula → Formula
  | 0, f => f
  | n + 1, f => not (negated n f)

end Formula

end Propositional
