import Propositional.Arena.Basic
import Propositional.Candidate

/-!
# Replacing a node

`Arena.substitute` puts a candidate in the place of a node. The subtrees that the candidate refers
to are moved there with their handles, its other nodes are new, and whatever is left of the replaced
subtree is given up.
-/

namespace Propositional.Arena

def slotOf (A : Arena) (parent child : Handle) : Checked Nat := do
  match ← A.shape parent with
  | .binary _ left right =>
    if left = child then return 0
    else if right = child then return 1
    else throw (.notHeld parent child)
  | .root held | .not held | .parens held =>
    if held = child then return 0 else throw (.notHeld parent child)
  | .id _ | .literal _ => throw (.leafParent parent)

def parentOf (A : Arena) (h : Handle) : Checked Handle := do
  match ← A.parent h with
  | some parent => return parent
  | none => throw (.parentless h)

def replace (A : Arena) (old new : Handle) : Checked Arena := do
  let parent ← A.parentOf old
  A.setChild parent (← A.slotOf parent old) new

/-- Adds the new nodes of a candidate, children first. Answers the top node, the new nodes in the
order in which they were added, and the arena. -/
def graft (A : Arena) : Candidate → Checked (Handle × List Handle × Arena)
  | .existing h => do
    if ← A.isLive h then return (h, [], A) else throw (.staleCandidate h)
  | .binary op left right => do
    let (left, freshLeft, A) ← A.graft left
    let (right, freshRight, A) ← A.graft right
    let (h, A) ← A.addBinary op left right
    return (h, freshLeft ++ freshRight ++ [h], A)
  | .not operand => do
    let (operand, fresh, A) ← A.graft operand
    let (h, A) ← A.addNot operand
    return (h, fresh ++ [h], A)
  | .parens inner => do
    let (inner, fresh, A) ← A.graft inner
    let (h, A) ← A.addParens inner
    return (h, fresh ++ [h], A)
  | .id name => do
    let (h, A) ← A.addId name
    return (h, [h], A)
  | .literal value => do
    let (h, A) ← A.addLiteral value
    return (h, [h], A)

def ownedBy (A : Arena) (h : Handle) : List Handle → Checked (List Handle)
  | [] => return []
  | child :: later => do
    let parent ← A.parent child
    let owned ← A.ownedBy h later
    return if parent = some h then child :: owned else owned

/-- Gives up a node and then, from right to left, the children that still named it as their parent,
to a given depth. -/
def releaseTo : Nat → Arena → Handle → Checked Arena
  | 0, _, _ => throw .endless
  | depth + 1, A, h => do
    let (node, A) ← A.take h
    let owned ← A.ownedBy h node.shape.children
    owned.reverse.foldlM (releaseTo depth) A

/-- Gives up a node with all that it still owns. Subtrees that were moved elsewhere name another
parent and stay. -/
def release (A : Arena) (h : Handle) : Checked Arena := releaseTo A.bound A h

/-- Puts a candidate in the place of a node and gives up what the candidate does not take over.
Answers the new nodes, children first. -/
def substitute (A : Arena) (old : Handle) (candidate : Candidate) :
    Checked (List Handle × Arena) := do
  let parent ← A.parentOf old
  let slot ← A.slotOf parent old
  let (new, fresh, A) ← A.graft candidate
  if new = old then throw (.selfReplacement old)
  let A ← A.setChild parent slot new
  if (← A.parent old) = some parent then return (fresh, ← A.release old)
  else return (fresh, A)

end Propositional.Arena
