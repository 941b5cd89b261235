import Propositional.Arena.Fold

/-!
# Written form of a subtree

Parentheses that are nodes are written as such. Others are added only where the text would
otherwise be read as another tree: around a disjunction below a conjunction, around a binary node
below a negation, and around a right operand with the connective of the node above it.
-/

namespace Propositional.Arena

def notPrecedence : Nat := 3

/-- Whether a binary node needs parentheses, below a node of strength `context` and as its right
operand or not. -/
def needsParens (op : Connective) (context : Nat) (isRight : Bool) : Bool :=
  op.precedence < context || (op.precedence = context && isRight)

def literalText (value : Bool) : String := if value then "TRUE" else "FALSE"

/-- The text of a node, given that of its children for every place they could stand in. -/
def displayShape (shape : Shape (Nat → Bool → String)) (context : Nat) (isRight : Bool) :
    String :=
  match shape with
  | .root child => child 0 false
  | .parens child => "(" ++ child 0 false ++ ")"
  | .not child => "NOT " ++ child notPrecedence false
  | .binary op left right =>
    let text := left op.precedence false ++ " " ++ op.keyword ++ " " ++ right op.precedence true
    if needsParens op context isRight then "(" ++ text ++ ")" else text
  | .id name => name
  | .literal value => literalText value

def display (A : Arena) (h : Handle) : Checked String :=
  return (← A.fold (fun _ => displayShape) h) 0 false

end Propositional.Arena
