import Propositional.Arena.Basic
import Propositional.Formula
import Propositional.Proofs.Table

/-!
# Terms and places

A term is a formula whose nodes carry the handles under which an arena holds them, and `cells` lists
what is then in the cells of the arena. A place is a forest with a hole for a term: what is above the
hole, what stands beside it, and the other trees. A forest with a term in a place has the cells of the
term, the cell right above it, and other cells that do not depend on the term.
-/

namespace Propositional

/-- A formula with the handle of each node. -/
inductive Term where
  | binary (h : Handle) (op : Connective) (left right : Term)
  | not (h : Handle) (operand : Term)
  | parens (h : Handle) (inner : Term)
  | id (h : Handle) (name : String)
  | literal (h : Handle) (value : Bool)

abbrev Cell := Handle × Node

namespace Term

def handle : Term → Handle
  | binary h _ _ _ | not h _ | parens h _ | id h _ | literal h _ => h

def shape : Term → Shape Handle
  | binary _ op left right => .binary op left.handle right.handle
  | not _ operand => .not operand.handle
  | parens _ inner => .parens inner.handle
  | id _ name => .id name
  | literal _ value => .literal value

def children : Term → List Term
  | binary _ _ left right => [left, right]
  | not _ child | parens _ child => [child]
  | id .. | literal .. => []

def formula : Term → Formula
  | binary _ op left right => .binary op left.formula right.formula
  | not _ operand => .not operand.formula
  | parens _ inner => .parens inner.formula
  | id _ name => .id name
  | literal _ value => .literal value

/-- The handles of all nodes, each before those below it. -/
def handles : Term → List Handle
  | binary h _ left right => h :: (left.handles ++ right.handles)
  | not h child | parens h child => h :: child.handles
  | id h _ | literal h _ => [h]

/-- The cells of all nodes, where the top node has a given parent. -/
def cells (parent : Option Handle) : Term → List Cell
  | binary h op left right =>
    (h, ⟨.binary op left.handle right.handle, parent⟩) :: (left.cells (some h) ++ right.cells (some h))
  | not h operand => (h, ⟨.not operand.handle, parent⟩) :: operand.cells (some h)
  | parens h inner => (h, ⟨.parens inner.handle, parent⟩) :: inner.cells (some h)
  | id h name => [(h, ⟨.id name, parent⟩)]
  | literal h value => [(h, ⟨.literal value, parent⟩)]

/-- All terms inside a term, itself included, each with its parent. -/
def subterms (parent : Option Handle) : Term → List (Option Handle × Term)
  | t@(binary h _ left right) => (parent, t) :: (left.subterms (some h) ++ right.subterms (some h))
  | t@(not h child) | t@(parens h child) => (parent, t) :: child.subterms (some h)
  | t@(id ..) | t@(literal ..) => [(parent, t)]

def size (t : Term) : Nat := t.handles.length

@[simp] theorem handle_binary (h : Handle) (op : Connective) (left right : Term) :
    (binary h op left right).handle = h := rfl

@[simp] theorem handle_not (h : Handle) (operand : Term) : (not h operand).handle = h := rfl

@[simp] theorem handle_parens (h : Handle) (inner : Term) : (parens h inner).handle = h := rfl

@[simp] theorem handle_id (h : Handle) (name : String) : (id h name).handle = h := rfl

@[simp] theorem handle_literal (h : Handle) (value : Bool) : (literal h value).handle = h := rfl

theorem byChildren {motive : Term → Prop}
    (step : ∀ t, (∀ c ∈ t.children, motive c) → motive t) (t : Term) : motive t := by
  induction t with
  | binary h op left right ihl ihr => exact step _ (by simp [children, ihl, ihr])
  | not h child ih | parens h child ih => exact step _ (by simp [children, ih])
  | id | literal => exact step _ (by simp [children])

theorem cells_eq (parent : Option Handle) (t : Term) :
    t.cells parent = (t.handle, ⟨t.shape, parent⟩) :: t.children.flatMap (cells (some t.handle)) := by
  cases t <;> simp [cells, children, handle, shape]

theorem subterms_eq (parent : Option Handle) (t : Term) :
    t.subterms parent = (parent, t) :: t.children.flatMap (subterms (some t.handle)) := by
  cases t <;> simp [subterms, children, handle]

theorem handles_eq (t : Term) : t.handles = t.handle :: t.children.flatMap handles := by
  cases t <;> simp [handles, children, handle]

theorem children_shape (t : Term) : t.shape.children = t.children.map handle := by
  cases t <;> rfl

@[simp] theorem map_fst_cells (parent : Option Handle) (t : Term) :
    (t.cells parent).map Prod.fst = t.handles := by
  induction t generalizing parent <;> simp_all [cells, handles]

theorem handle_mem_handles (t : Term) : t.handle ∈ t.handles := by simp [handles_eq t]

theorem mem_handles_of_mem_cells {t : Term} {parent : Option Handle} {cell : Cell}
    (member : cell ∈ t.cells parent) : cell.1 ∈ t.handles := by
  rw [← map_fst_cells parent]
  exact List.mem_map_of_mem member

theorem size_pos (t : Term) : 0 < t.size := by simp [size, handles_eq t]

theorem size_binary (h : Handle) (op : Connective) (left right : Term) :
    (binary h op left right).size = left.size + right.size + 1 := by simp [size, handles]

theorem size_not (h : Handle) (operand : Term) : (not h operand).size = operand.size + 1 := by
  simp [size, handles]

theorem size_parens (h : Handle) (inner : Term) : (parens h inner).size = inner.size + 1 := by
  simp [size, handles]

theorem size_le_of_mem_children {t c : Term} (child : c ∈ t.children) : c.size < t.size := by
  simp only [size, handles_eq t, List.length_cons, List.length_flatMap]
  exact Nat.lt_succ_of_le (List.single_le_sum (by simp) _ (List.mem_map_of_mem child))

/-! ### Terms inside a term -/

theorem self_mem_subterms (parent : Option Handle) (t : Term) : (parent, t) ∈ t.subterms parent := by
  rw [subterms_eq]
  exact List.mem_cons_self

theorem child_mem_subterms {t c : Term} (parent : Option Handle) (child : c ∈ t.children) :
    (some t.handle, c) ∈ t.subterms parent := by
  rw [subterms_eq]
  exact List.mem_cons_of_mem _ (List.mem_flatMap_of_mem child (self_mem_subterms _ _))

theorem subterms_trans {t s : Term} {p q : Option Handle} {entry : Option Handle × Term}
    (outer : (q, s) ∈ t.subterms p) (inner : entry ∈ s.subterms q) : entry ∈ t.subterms p := by
  induction t using byChildren generalizing p with
  | step t ih =>
    rw [subterms_eq, List.mem_cons] at outer
    rcases outer with same | below
    · obtain ⟨rfl, rfl⟩ := Prod.mk.inj same
      exact inner
    · obtain ⟨c, child, below⟩ := List.mem_flatMap.mp below
      rw [subterms_eq]
      exact List.mem_cons_of_mem _ (List.mem_flatMap_of_mem child (ih c child below))

theorem cells_subset_of_mem_subterms {t s : Term} {p q : Option Handle}
    (inside : (q, s) ∈ t.subterms p) : s.cells q ⊆ t.cells p := by
  induction t using byChildren generalizing p with
  | step t ih =>
    rw [subterms_eq, List.mem_cons] at inside
    rcases inside with same | below
    · obtain ⟨rfl, rfl⟩ := Prod.mk.inj same
      exact List.Subset.refl _
    · obtain ⟨c, child, below⟩ := List.mem_flatMap.mp below
      intro cell member
      rw [cells_eq]
      exact List.mem_cons_of_mem _ (List.mem_flatMap_of_mem child (ih c child below member))

theorem handles_subset_of_mem_subterms {t s : Term} {p q : Option Handle}
    (inside : (q, s) ∈ t.subterms p) : s.handles ⊆ t.handles := by
  rw [← map_fst_cells q s, ← map_fst_cells p t]
  exact List.map_subset _ (cells_subset_of_mem_subterms inside)

theorem exists_subterm_of_mem_handles {t : Term} {h : Handle} (p : Option Handle) (member : h ∈ t.handles) :
    ∃ q s, (q, s) ∈ t.subterms p ∧ s.handle = h := by
  induction t using byChildren generalizing p with
  | step t ih =>
    rw [handles_eq, List.mem_cons] at member
    rcases member with same | below
    · exact ⟨p, t, self_mem_subterms p t, same.symm⟩
    · obtain ⟨c, child, below⟩ := List.mem_flatMap.mp below
      obtain ⟨q, s, inside, same⟩ := ih c child (some t.handle) below
      exact ⟨q, s, subterms_trans (child_mem_subterms p child) inside, same⟩

end Term

structure Tree where
  root : Handle
  body : Term

def Tree.cells (x : Tree) : List Cell :=
  (x.root, ⟨.root x.body.handle, none⟩) :: x.body.cells (some x.root)

def forestCells (trees : List Tree) : List Cell := trees.flatMap Tree.cells

/-- A hole in a forest. -/
inductive Place where
  /-- Right below a root, among other trees. -/
  | top (before : List Tree) (root : Handle) (after : List Tree)
  | left (up : Place) (h : Handle) (op : Connective) (sibling : Term)
  | right (up : Place) (h : Handle) (op : Connective) (sibling : Term)
  | not (up : Place) (h : Handle)
  | parens (up : Place) (h : Handle)

namespace Place

def fill : Place → Term → List Tree
  | top before root after, t => before ++ ⟨root, t⟩ :: after
  | left up h op sibling, t => up.fill (.binary h op t sibling)
  | right up h op sibling, t => up.fill (.binary h op sibling t)
  | not up h, t => up.fill (.not h t)
  | parens up h, t => up.fill (.parens h t)

def parent : Place → Handle
  | top _ h _ | left _ h _ _ | right _ h _ _ | not _ h | parens _ h => h

/-- The slot of the parent that is the hole. -/
def slot : Place → Nat
  | right .. => 1
  | _ => 0

/-- What the parent is, with a given handle in the hole. -/
def shape : Place → Handle → Shape Handle
  | top .., h => .root h
  | left _ _ op sibling, h => .binary op h sibling.handle
  | right _ _ op sibling, h => .binary op sibling.handle h
  | not .., h => .not h
  | parens .., h => .parens h

def grandparent : Place → Option Handle
  | top .. => none
  | left up .. | right up .. | not up _ | parens up _ => some up.parent

/-- The cell of the parent, with a given handle in the hole. -/
def holder (C : Place) (h : Handle) : Cell := (C.parent, ⟨C.shape h, C.grandparent⟩)

/-- The cells of the forest apart from the parent and what is in the hole. -/
def outer : Place → List Cell
  | top before _ after => forestCells before ++ forestCells after
  | left up h _ sibling | right up h _ sibling =>
    sibling.cells (some h) ++ up.holder h :: up.outer
  | not up h | parens up h => up.holder h :: up.outer

/-- The connective right above the hole, parentheses aside. -/
def above : Place → Option Connective
  | left _ _ op _ | right _ _ op _ => some op
  | parens up _ => up.above
  | top .. | not .. => none

theorem child?_shape (C : Place) (h : Handle) : (C.shape h).child? C.slot = some h := by
  cases C <;> rfl

theorem setChild?_shape (C : Place) (h k : Handle) :
    (C.shape h).setChild? C.slot k = some (C.shape k) := by
  cases C <;> rfl

/-- What a forest consists of, seen from a place in it. -/
theorem forestCells_fill (C : Place) (t : Term) :
    (forestCells (C.fill t)).Perm (C.holder t.handle :: (t.cells (some C.parent) ++ C.outer)) := by
  induction C generalizing t with
  | top before root after =>
    rw [List.perm_iff_count]
    intro cell
    simp only [fill, forestCells, List.flatMap_append, List.flatMap_cons, Tree.cells, holder, parent,
      shape, grandparent, outer, List.count_append, List.count_cons]
    omega
  | left up h op sibling ih | right up h op sibling ih =>
    refine (ih _).trans ?_
    rw [List.perm_iff_count]
    intro cell
    simp only [Term.cells, Term.handle, holder, parent, shape, grandparent, outer, List.count_append,
      List.count_cons]
    omega
  | not up h ih | parens up h ih =>
    refine (ih _).trans ?_
    rw [List.perm_iff_count]
    intro cell
    simp only [Term.cells, Term.handle, holder, parent, shape, grandparent, outer, List.count_append,
      List.count_cons]
    omega

theorem exists_inner (C : Place) {t s : Term} {q : Option Handle}
    (inside : (q, s) ∈ t.subterms (some C.parent)) : ∃ D : Place, D.fill s = C.fill t ∧ some D.parent = q := by
  induction t generalizing C with
  | binary h op left right ihl ihr =>
    simp only [Term.subterms, List.mem_cons, List.mem_append, Prod.mk.injEq] at inside
    rcases inside with ⟨rfl, rfl⟩ | inside | inside
    · exact ⟨C, rfl, rfl⟩
    · exact ihl (.left C h op right) inside
    · exact ihr (.right C h op left) inside
  | not h child ih =>
    simp only [Term.subterms, List.mem_cons, Prod.mk.injEq] at inside
    rcases inside with ⟨rfl, rfl⟩ | inside
    · exact ⟨C, rfl, rfl⟩
    · exact ih (.not C h) inside
  | parens h child ih =>
    simp only [Term.subterms, List.mem_cons, Prod.mk.injEq] at inside
    rcases inside with ⟨rfl, rfl⟩ | inside
    · exact ⟨C, rfl, rfl⟩
    · exact ih (.parens C h) inside
  | id h name | literal h value =>
    simp only [Term.subterms, List.mem_singleton, Prod.mk.injEq] at inside
    obtain ⟨rfl, rfl⟩ := inside
    exact ⟨C, rfl, rfl⟩

end Place

end Propositional
