import Propositional.Fault

/-!
# Arenas

An arena holds formulas as linked nodes in the cells of one table. A node knows its children and,
unless nothing holds it, its parent; a formula hangs below a root node, and one arena may hold many.
The primitive operations here keep no promise about the links beyond what each says: the rules that
join them into whole replacements are in the modules above this one.
-/

namespace Propositional

structure Node where
  shape : Shape Handle
  parent : Option Handle := none
  deriving DecidableEq, Repr

/-- Linked nodes, with the roots in the order in which they were made. -/
structure Arena where
  table : Table Node := {}
  roots : List Handle := []

namespace Arena

/-! ### Reading -/

def node (A : Arena) (h : Handle) : Checked Node := .ofTable (A.table.get h.index)

def shape (A : Arena) (h : Handle) : Checked (Shape Handle) := return (← A.node h).shape

def variant (A : Arena) (h : Handle) : Checked Variant := return (← A.shape h).variant

/-- The parent that the node names. -/
def parent (A : Arena) (h : Handle) : Checked (Option Handle) := return (← A.node h).parent

/-- The child in a slot of the node, if it has the slot. -/
def child (A : Arena) (h : Handle) (slot : Nat) : Checked (Option Handle) :=
  return (← A.shape h).child? slot

def children (A : Arena) (h : Handle) : Checked (List Handle) := return (← A.shape h).children

/-- Whether the handle still leads to a node. -/
def isLive (A : Arena) (h : Handle) : Checked Bool := .ofTable (A.table.occupied h.index)

def live (A : Arena) : Nat := A.table.count

def handles (A : Arena) : List Handle := A.table.indices.map Handle.mk

def rootChild (A : Arena) (root : Handle) : Checked Handle := do
  match ← A.shape root with
  | .root child => return child
  | shape => throw (.notRoot root shape)

/-- More than the length of any path of distinct nodes: recursions along the links stop here. -/
def bound (A : Arena) : Nat := A.table.size + 1

/-! ### Writing -/

def setNode (A : Arena) (h : Handle) (node : Node) : Checked Arena :=
  return { A with table := ← .ofTable (A.table.set h.index node) }

def setParent (A : Arena) (h : Handle) (parent : Option Handle) : Checked Arena := do
  A.setNode h { ← A.node h with parent }

/-- Puts a child into a slot of a node, and makes it name the node as its parent. -/
def setChild (A : Arena) (h : Handle) (slot : Nat) (child : Handle) : Checked Arena := do
  let node ← A.node h
  match node.shape.setChild? slot child with
  | none => throw (.noSlot h slot)
  | some shape => (← A.setNode h { node with shape }).setParent child (some h)

def take (A : Arena) (h : Handle) : Checked (Node × Arena) := do
  let (node, table) ← .ofTable (A.table.drop h.index)
  return (node, { A with table })

/-- Adds a node, and makes its children name it as their parent. -/
def add (A : Arena) (shape : Shape Handle) : Checked (Handle × Arena) := do
  let (index, table) := A.table.add { shape }
  let A ← shape.children.foldlM (fun A child => A.setParent child (some ⟨index⟩)) { A with table }
  return (⟨index⟩, A)

def addRoot (A : Arena) (child : Handle) : Checked (Handle × Arena) := do
  match ← A.parent child with
  | some parent => throw (.attached child parent)
  | none =>
    let (h, A) ← A.add (.root child)
    return (h, { A with roots := A.roots ++ [h] })

def addBinary (A : Arena) (op : Connective) (left right : Handle) : Checked (Handle × Arena) :=
  if left = right then throw .twoSlots else A.add (.binary op left right)

def addNot (A : Arena) (operand : Handle) : Checked (Handle × Arena) := A.add (.not operand)

def addParens (A : Arena) (inner : Handle) : Checked (Handle × Arena) := A.add (.parens inner)

def addId (A : Arena) (name : String) : Checked (Handle × Arena) := A.add (.id name)

def addLiteral (A : Arena) (value : Bool) : Checked (Handle × Arena) := A.add (.literal value)

end Arena

end Propositional
