import Propositional.Connective
import Propositional.Handle
import Propositional.Text.Quoted

/-!
# Shapes of nodes

What a node is, over any type of children: handles in an arena, and results in a recursion over
one.
-/

namespace Propositional

/-- The sort of a node, by which it is matched with the rules for it. -/
inductive Variant where
  | root
  | binary
  | not
  | parens
  | id
  | literal
  deriving DecidableEq, Repr, Hashable

def Variant.name : Variant → String
  | root => "Root"
  | binary => "BinaryOp"
  | not => "Not"
  | parens => "Parens"
  | id => "Id"
  | literal => "Literal"

/-- All variants, ordered by their names. -/
def Variant.all : List Variant := [.binary, .id, .literal, .not, .parens, .root]

theorem Variant.mem_all (v : Variant) : v ∈ Variant.all := by cases v <;> decide

inductive Shape (α : Type) where
  | root (child : α)
  | binary (op : Connective) (left right : α)
  | not (child : α)
  | parens (child : α)
  | id (name : String)
  | literal (value : Bool)
  deriving DecidableEq, Repr

namespace Shape

variable {α β ε : Type}

def variant : Shape α → Variant
  | root _ => .root
  | binary .. => .binary
  | not _ => .not
  | parens _ => .parens
  | id _ => .id
  | literal _ => .literal

def children : Shape α → List α
  | root child | not child | parens child => [child]
  | binary _ left right => [left, right]
  | id _ | literal _ => []

def arity : Shape α → Nat
  | root _ | not _ | parens _ => 1
  | binary .. => 2
  | id _ | literal _ => 0

/-- The child in a slot: slot 0 holds the only or the left child, slot 1 the right one. -/
def child? (s : Shape α) (slot : Nat) : Option α := s.children[slot]?

/-- The shape with another child in a slot, if there is such a slot. -/
def setChild? (s : Shape α) (slot : Nat) (child : α) : Option (Shape α) :=
  match s, slot with
  | root _, 0 => some (root child)
  | not _, 0 => some (not child)
  | parens _, 0 => some (parens child)
  | binary op _ right, 0 => some (binary op child right)
  | binary op left _, 1 => some (binary op left child)
  | _, _ => none

def skeleton : Shape α → Shape Unit
  | root _ => root ()
  | binary op _ _ => binary op () ()
  | not _ => not ()
  | parens _ => parens ()
  | id name => id name
  | literal value => literal value

def isLeaf : Shape α → Bool
  | id _ | literal _ => true
  | _ => false

/-- Replaces the children from left to right by the results of `f`, the first failure of which is
the failure of the whole. -/
def traverse (f : α → Except ε β) : Shape α → Except ε (Shape β)
  | root child => return root (← f child)
  | binary op left right => return binary op (← f left) (← f right)
  | not child => return not (← f child)
  | parens child => return parens (← f child)
  | id name => return id name
  | literal value => return literal value

theorem length_children (s : Shape α) : s.children.length = s.arity := by cases s <;> rfl

theorem child?_eq_none_iff {s : Shape α} {slot : Nat} : s.child? slot = none ↔ s.arity ≤ slot := by
  rw [child?, List.getElem?_eq_none_iff, length_children]

theorem setChild?_eq_none_iff {s : Shape α} {slot : Nat} {child : α} :
    s.setChild? slot child = none ↔ s.arity ≤ slot := by
  rcases slot with _ | _ | slot <;> cases s <;> simp [setChild?, arity]

end Shape

def Shape.describe : Shape Handle → String
  | root child => s!"Root({child.describe})"
  | binary op left right =>
    s!"BinaryOp \x7b op: {op.name}, left: {left.describe}, right: {right.describe} \x7d"
  | not child => s!"Not({child.describe})"
  | parens child => s!"Parens({child.describe})"
  | id name => s!"Id({Text.quoted name})"
  | literal value => s!"Literal({value})"

end Propositional
