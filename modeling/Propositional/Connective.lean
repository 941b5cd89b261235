/-!
# The two binary connectives

Conjunction and disjunction, with the facts about them that simplification rests on: each has a
dual, a literal that decides a chain of it, and a literal that a chain can drop.
-/

namespace Propositional

inductive Connective where
  | and
  | or
  deriving DecidableEq, Repr, Hashable

namespace Connective

def flip : Connective → Connective
  | and => or
  | or => and

/-- The literal that makes a whole chain constant. -/
def absorbing : Connective → Bool
  | and => false
  | or => true

/-- The literal that vanishes from a chain. -/
def neutral : Connective → Bool
  | and => true
  | or => false

def apply : Connective → Bool → Bool → Bool
  | and, a, b => a && b
  | or, a, b => a || b

/-- Binding strength in written formulas: the higher binds tighter. -/
def precedence : Connective → Nat
  | or => 1
  | and => 2

/-- The keyword that stands for the connective in written formulas. -/
def keyword : Connective → String
  | and => "AND"
  | or => "OR"

/-- The name of the connective in descriptions of nodes. -/
def name : Connective → String
  | and => "And"
  | or => "Or"

@[simp] theorem flip_flip (op : Connective) : op.flip.flip = op := by cases op <;> rfl

theorem neutral_eq_not_absorbing (op : Connective) : op.neutral = !op.absorbing := by
  cases op <;> rfl

@[simp] theorem apply_absorbing (op : Connective) (b : Bool) :
    op.apply op.absorbing b = op.absorbing := by cases op <;> rfl

@[simp] theorem apply_neutral (op : Connective) (b : Bool) : op.apply op.neutral b = b := by
  cases op <;> rfl

theorem apply_comm (op : Connective) (a b : Bool) : op.apply a b = op.apply b a := by
  cases op <;> cases a <;> cases b <;> rfl

theorem not_apply (op : Connective) (a b : Bool) :
    (!op.apply a b) = op.flip.apply (!a) (!b) := by
  cases op <;> cases a <;> cases b <;> rfl

end Connective

end Propositional
