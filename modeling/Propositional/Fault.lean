import Propositional.Shape
import Propositional.Table

/-!
# Faults

What can go wrong when an arena is used against its rules. Every operation on an arena either
succeeds or answers a fault.
-/

namespace Propositional

inductive Fault where
  | cell (fault : Table.Fault)
  | attached (node parent : Handle)
  | twoSlots
  | noSlot (node : Handle) (slot : Nat)
  | notRoot (node : Handle) (shape : Shape Handle)
  | parentless (node : Handle)
  | notHeld (parent child : Handle)
  | leafParent (parent : Handle)
  | selfReplacement (node : Handle)
  | staleCandidate (node : Handle)
  -- What a rule answers about a node that it is not meant for.
  | notNegation (node : Handle) (shape : Shape Handle)
  | inapplicable (rule : String) (shape : Shape Handle)
  | inapplicableBelowNot (rule : String) (operand : Shape Handle)
  | emptyChain (node : Handle)
  -- What the pass misses after a replacement.
  | slotVanished (slot : Nat) (parent : Handle)
  | freshGone (node : Handle)
  | raised (message : String)
  /-- A recursion did not end: it went round a cycle, or a rule kept applying. -/
  | endless
  deriving DecidableEq, Repr

def Fault.message : Fault → String
  | cell fault => fault.message
  | attached node parent =>
    s!"Node {node.text} is already attached to Some({parent.describe})"
  | twoSlots => "assertion `left != right` failed: A node cannot occupy two slots"
  | noSlot node slot => s!"Node {node.text} has no child slot {slot}"
  | notRoot node shape => s!"Node {node.text} is not a root: {shape.describe}"
  | parentless node => s!"Cannot replace parentless node {node.text}"
  | notHeld parent child =>
    s!"assertion `left == right` failed: Parent {parent.text} does not hold {child.text}"
  | leafParent parent =>
    s!"internal error: entered unreachable code: Leaf {parent.text} cannot be a parent"
  | selfReplacement node =>
    s!"assertion `left != right` failed: Node {node.text} cannot replace itself"
  | staleCandidate node => s!"Candidate references freed node {node.text}"
  | notNegation node shape =>
    s!"internal error: entered unreachable code: Expected NOT at {node.text}, got " ++
      shape.describe
  | inapplicable rule shape =>
    s!"internal error: entered unreachable code: {rule} applied to {shape.describe}"
  | inapplicableBelowNot rule operand =>
    s!"internal error: entered unreachable code: {rule} applied to NOT {operand.describe}"
  | emptyChain node =>
    s!"internal error: entered unreachable code: Chain at {node.text} has no operands"
  | slotVanished slot parent =>
    s!"internal error: entered unreachable code: Slot {slot} of {parent.text} vanished"
  | freshGone _ => "assertion failed: ast.is_live(id)"
  | raised message => message
  | endless => "the recursion does not end"

abbrev Checked (α : Type) := Except Fault α

def Checked.ofTable {α : Type} (result : Except Table.Fault α) : Checked α :=
  result.mapError Fault.cell

end Propositional
