import Propositional.Proofs.Arena.Cells

/-!
# Forests in arenas

An arena represents a forest if the cells of the forest are its cells and the roots of the forest its
roots. Seen from a place in the forest, another term in that place is all that a change of the arena
has to be checked for.
-/

namespace Propositional

namespace Place

def root : Place → Handle
  | top _ h _ => h
  | left up .. | right up .. | not up _ | parens up _ => up.root

/-- What is below that root, with a term in the hole. -/
def plug : Place → Term → Term
  | top .., t => t
  | left up h op sibling, t => up.plug (.binary h op t sibling)
  | right up h op sibling, t => up.plug (.binary h op sibling t)
  | not up h, t => up.plug (.not h t)
  | parens up h, t => up.plug (.parens h t)

/-- The trees before and after the one with the hole. -/
def others : Place → List Tree × List Tree
  | top before _ after => (before, after)
  | left up .. | right up .. | not up _ | parens up _ => up.others

theorem fill_eq (C : Place) (t : Term) : C.fill t = C.others.1 ++ ⟨C.root, C.plug t⟩ :: C.others.2 := by
  induction C generalizing t with
  | top before h after => rfl
  | left up h op sibling ih | right up h op sibling ih => exact ih _
  | not up h ih | parens up h ih => exact ih _

theorem root_mem_fill (C : Place) (t s : Term) (h : Handle) :
    (∃ x ∈ C.fill t, x.root = h) ↔ ∃ x ∈ C.fill s, x.root = h := by
  induction C generalizing t s with
  | top before root after => simp [fill, or_and_right, exists_or]
  | left up k op sibling ih | right up k op sibling ih => exact ih _ _
  | not up k ih | parens up k ih => exact ih _ _

end Place

namespace Arena

variable {A B : Arena} {C : Place} {t s : Term} {p q : Option Handle} {h : Handle} {n : Node}
  {trees : List Tree}

/-- The trees are those of the arena. -/
structure Represents (A : Arena) (trees : List Tree) : Prop where
  owns : A.Owns (forestCells trees)
  mem_roots : ∀ h, h ∈ A.roots ↔ ∃ x ∈ trees, x.root = h

/-- The nodes of a term are in their cells. -/
def Holds (A : Arena) (p : Option Handle) (t : Term) : Prop :=
  ∀ cell ∈ t.cells p, A.cell? cell.1 = some cell.2

namespace Holds

theorem top (holds : A.Holds p t) : A.cell? t.handle = some ⟨t.shape, p⟩ :=
  holds (t.handle, ⟨t.shape, p⟩) (by rw [Term.cells_eq]; exact List.mem_cons_self)

theorem subterm (holds : A.Holds p t) (inside : (q, s) ∈ t.subterms p) : A.Holds q s :=
  fun cell member => holds cell (Term.cells_subset_of_mem_subterms inside member)

theorem child {c : Term} (holds : A.Holds p t) (child : c ∈ t.children) : A.Holds (some t.handle) c :=
  holds.subterm (Term.child_mem_subterms p child)

theorem shape (holds : A.Holds p t) : A.shape t.handle = .ok t.shape := shape_of_cell? holds.top

theorem of_children (held : A.cell? t.handle = some ⟨t.shape, p⟩)
    (below : ∀ c ∈ t.children, A.Holds (some t.handle) c) : A.Holds p t := by
  intro cell member
  rw [Term.cells_eq, List.mem_cons] at member
  rcases member with rfl | member
  · exact held
  · obtain ⟨c, child, inside⟩ := List.mem_flatMap.mp member
    exact below c child cell inside

end Holds

namespace Represents

theorem owns_at (represents : A.Represents (C.fill t)) :
    A.Owns (C.holder t.handle :: (t.cells (some C.parent) ++ C.outer)) :=
  represents.owns.perm (C.forestCells_fill t)

theorem refill (represents : A.Represents (C.fill t))
    (owns : B.Owns (C.holder s.handle :: (s.cells (some C.parent) ++ C.outer)))
    (roots : B.roots = A.roots) : B.Represents (C.fill s) where
  owns := owns.perm (C.forestCells_fill s).symm
  mem_roots h := by rw [roots, represents.mem_roots, C.root_mem_fill t s]

theorem holds (represents : A.Represents (C.fill t)) : A.Holds (some C.parent) t := by
  intro cell member
  exact represents.owns_at.cell? (List.mem_cons_of_mem _ (List.mem_append_left _ member))

theorem holder (represents : A.Represents (C.fill t)) :
    A.cell? C.parent = some ⟨C.shape t.handle, C.grandparent⟩ :=
  represents.owns_at.cell? List.mem_cons_self

theorem nodup (represents : A.Represents (C.fill t)) : t.handles.Nodup := by
  have nodup := represents.owns_at.nodup
  rw [List.map_cons, List.nodup_cons, List.map_append, Term.map_fst_cells] at nodup
  exact nodup.2.of_append_left

theorem sibling_ne {up : Place} {sibling : Term} {h : Handle} {op : Connective}
    (represents : A.Represents ((Place.right up h op sibling).fill t)) : sibling.handle ≠ t.handle := by
  have nodup := represents.owns_at.nodup
  simp only [Place.outer, List.map_cons, List.map_append, Term.map_fst_cells, List.nodup_cons] at nodup
  intro same
  exact List.disjoint_of_nodup_append nodup.2 t.handle_mem_handles
    (same ▸ List.mem_append_left _ sibling.handle_mem_handles)

theorem size_le_live (represents : A.Represents (C.fill t)) : t.size ≤ A.live := by
  rw [represents.owns_at.live_eq.1, ← List.length_map (f := Prod.fst)]
  simp [Term.size]
  omega

theorem size_lt_bound (represents : A.Represents (C.fill t)) : t.size < A.bound := by
  have fits := represents.owns_at.live_eq
  have small := represents.size_le_live
  unfold bound
  omega

/-- Every live node is a root or in a place. -/
theorem locate (represents : A.Represents trees) (held : A.cell? h = some n) :
    (∃ x ∈ trees, x.root = h) ∨ ∃ C t, Place.fill C t = trees ∧ t.handle = h := by
  obtain ⟨x, tree, member⟩ := List.mem_flatMap.mp ((represents.owns.cell?_iff h n).mp held)
  rw [Tree.cells, List.mem_cons] at member
  rcases member with same | below
  · exact Or.inl ⟨x, tree, (congrArg Prod.fst same).symm⟩
  · obtain ⟨before, after, rfl⟩ := List.append_of_mem tree
    obtain ⟨q, s, inside, same⟩ :=
      Term.exists_subterm_of_mem_handles (some x.root) (Term.mem_handles_of_mem_cells below)
    obtain ⟨D, filled, -⟩ := (Place.top before x.root after).exists_inner inside
    exact Or.inr ⟨D, s, filled, same⟩

end Represents

end Arena

end Propositional
