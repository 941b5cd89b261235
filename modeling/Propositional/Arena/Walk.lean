import Propositional.Arena.Basic

/-!
# Walking through a subtree

A walk visits each node of a subtree after its children. A visit may replace the node it is given.
The children of a node are read from the node again after each of them has been visited, so the walk
goes on from what a visit has left there.
-/

namespace Propositional.Arena

variable {τ : Type}

/-- A walk under way: the arena, what the visits keep for themselves, and the number of visits that
replaced their node. -/
structure Walk (τ : Type) where
  arena : Arena
  notes : τ
  replaced : Nat := 0

/-- What happens at a node: the arena and the notes may change, and the answer says whether the node
was replaced. -/
abbrev Visit (τ : Type) := Handle → Arena → τ → Checked (Bool × Arena × τ)

def Walk.visit (w : Walk τ) (attempt : Visit τ) (h : Handle) : Checked (Walk τ) := do
  let (replaced, arena, notes) ← attempt h w.arena w.notes
  return { arena, notes, replaced := if replaced then w.replaced + 1 else w.replaced }

/-- Walks through the children of a node from a slot on and then visits the node, in a given number
of nested steps. -/
def Walk.fromSlot (attempt : Visit τ) : Nat → Handle → Nat → Walk τ → Checked (Walk τ)
  | 0, _, _, _ => throw .endless
  | steps + 1, h, slot, w => do
    match ← w.arena.child h slot with
    | some child => fromSlot attempt steps h (slot + 1) (← fromSlot attempt steps child 0 w)
    | none => w.visit attempt h

def walkTo (A : Arena) (attempt : Visit τ) (steps : Nat) (start : Handle) (notes : τ) :
    Checked (Walk τ) :=
  Walk.fromSlot attempt steps start 0 { arena := A, notes }

/-- More nested steps than a walk can take that does not go round a cycle: its path is a path of
the arena, prolonged by what the visits on the way have added. -/
def patience (A : Arena) : Nat := Nat.pow 2 (A.live + 20)

def walk (A : Arena) (attempt : Visit τ) (start : Handle) (notes : τ) : Checked (Walk τ) :=
  A.walkTo attempt A.patience start notes

end Propositional.Arena
