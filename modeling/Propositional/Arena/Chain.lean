import Propositional.Arena.Basic

/-!
# Chains

A chain is a maximal group of nodes of one connective, where parentheses between the nodes do not
count. Its operands are the nodes right below it, with the parentheses around them taken off.
-/

namespace Propositional.Arena

/-- The first node that is not a pair of parentheses, to a given depth. -/
def peelTo (A : Arena) : Nat → Handle → Checked Handle
  | 0, _ => throw .endless
  | depth + 1, h => do
    match ← A.shape h with
    | .parens inner => A.peelTo depth inner
    | _ => return h

def peel (A : Arena) (h : Handle) : Checked Handle := A.peelTo A.bound h

def chainOperandsTo (A : Arena) (op : Connective) : Nat → Handle → Checked (List Handle)
  | 0, _ => throw .endless
  | depth + 1, h => do
    let h ← A.peel h
    match ← A.shape h with
    | .binary op' left right =>
      if op' = op then
        return (← A.chainOperandsTo op depth left) ++ (← A.chainOperandsTo op depth right)
      else return [h]
    | _ => return [h]

/-- The operands of the chain of `op` at a node, from left to right. A node of another sort is a
chain of one. -/
def chainOperands (A : Arena) (h : Handle) (op : Connective) : Checked (List Handle) :=
  A.chainOperandsTo op A.bound h

/-- Whether the first node upwards from here that is not a pair of parentheses is of another sort
than `op`, to a given height. -/
def headsChainFrom (A : Arena) (op : Connective) : Nat → Option Handle → Checked Bool
  | _, none => return true
  | 0, some _ => throw .endless
  | height + 1, some h => do
    match ← A.shape h with
    | .parens _ => A.headsChainFrom op height (← A.parent h)
    | .binary op' _ _ => return op' ≠ op
    | _ => return true

/-- Whether a node heads its chain: no node of `op` is right above it, parentheses aside. -/
def headsChain (A : Arena) (h : Handle) (op : Connective) : Checked Bool := do
  A.headsChainFrom op A.bound (← A.parent h)

end Propositional.Arena
