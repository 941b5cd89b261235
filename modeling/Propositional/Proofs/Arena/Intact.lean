import Propositional.Proofs.Arena.WellFormed
import Propositional.Proofs.Checked

/-!
# Intact arenas

An arena is intact if it consists of the trees below its listed roots and of nothing else, each node
being linked in one place. An arena that represents a forest and lists no root twice is intact.
-/

namespace Propositional

theorem Term.fold_handles (t : Term) (others : List Handle) :
    t.fold (Arena.collectShape fun h _ => [h]) others = t.handles ++ others := by
  induction t generalizing others with
  | binary h op left right ihl ihr =>
    rw [handles, List.cons_append, List.append_assoc, ← ihr, ← ihl]
    rfl
  | not h child ih | parens h child ih => exact congrArg (h :: ·) (ih others)
  | id h name | literal h value => rfl

namespace Arena

variable {A : Arena} {trees : List Tree} {x : Tree}

theorem Holds.descendants {t : Term} {p : Option Handle} (holds : A.Holds p t) (small : t.size < A.bound) :
    A.descendants t.handle = .ok t.handles := by
  rw [Arena.descendants, collect, fold_term (collectShape fun h _ => [h]) holds small]
  have listed := t.fold_handles []
  rw [List.append_nil] at listed
  exact congrArg Except.ok listed

/-- Nothing is linked wrongly, lost or left over. -/
structure Intact (A : Arena) : Prop where
  root_of_mem : ∀ root ∈ A.roots, A.isLive root = .ok true ∧ A.variant root = .ok .root ∧
    A.parent root = .ok none ∧ ∀ p slot, A.child p slot ≠ .ok (some root)
  nodup_roots : A.roots.Nodup
  mem_of_root : ∀ h, A.isLive h = .ok true → A.variant h = .ok .root → h ∈ A.roots
  held_once : ∀ h, A.isLive h = .ok true → h ∉ A.roots →
    ∃ p slot, A.isLive p = .ok true ∧ A.parent h = .ok (some p) ∧ A.child p slot = .ok (some h) ∧
      ∀ q s, A.child q s = .ok (some h) → q = p ∧ s = slot
  below_root : ∀ h, A.isLive h = .ok true → ∃ root ∈ A.roots, Relation.ReflTransGen A.NamesParent h root
  live_eq_sum : ∃ sizes, A.roots.mapM A.size = .ok sizes ∧ A.live = sizes.sum

namespace Represents

theorem descendants_root (represents : A.Represents trees) (tree : x ∈ trees) :
    A.descendants x.root = .ok (x.root :: x.body.handles) := by
  obtain ⟨held, holds, small⟩ := represents.tree tree
  rw [descendants, collect, fold_root (collectShape fun h _ => [h]) held holds small]
  have listed := x.body.fold_handles []
  rw [List.append_nil] at listed
  exact congrArg (fun below => Except.ok (x.root :: below)) listed

theorem size_root (represents : A.Represents trees) (tree : x ∈ trees) :
    A.size x.root = .ok (x.body.size + 1) := by
  rw [size, represents.descendants_root tree]
  rfl

theorem length_forestCells (trees : List Tree) :
    (forestCells trees).length = (trees.map fun x => x.body.size + 1).sum := by
  rw [forestCells, List.length_flatMap]
  congr 2
  funext x
  rw [Tree.cells, List.length_cons, ← List.length_map (f := Prod.fst), Term.map_fst_cells, Term.size]

theorem live_eq_sum (represents : A.Represents trees) (nodup : A.roots.Nodup) :
    ∃ sizes, A.roots.mapM A.size = .ok sizes ∧ A.live = sizes.sum := by
  -- The roots may be listed in another order than that of the trees, so the sum is taken up to a permutation.
  let count (h : Handle) : Nat := (A.size h).toOption.getD 0
  have counted : ∀ x ∈ trees, count x.root = x.body.size + 1 := by
    intro x tree
    simp only [count, represents.size_root tree]
    rfl
  have same : A.roots.Perm (trees.map Tree.root) := by
    refine (List.perm_ext_iff_of_nodup nodup represents.nodup_roots).mpr fun h => ?_
    rw [represents.mem_roots, List.mem_map]
  refine ⟨A.roots.map count, Checked.mapM_ok fun root listed => ?_, ?_⟩
  · obtain ⟨x, tree, rfl⟩ := (represents.mem_roots root).mp listed
    rw [counted x tree, represents.size_root tree]
  · rw [(same.map count).sum_eq, List.map_map, represents.owns.live_eq.1, length_forestCells]
    congr 1
    exact (List.map_congr_left counted).symm

theorem below_root {h : Handle} (represents : A.Represents trees) (live : A.isLive h = .ok true) :
    ∃ root ∈ A.roots, Relation.ReflTransGen A.NamesParent h root := by
  obtain ⟨n, held⟩ := cell?_of_isLive live
  obtain ⟨x, tree, inside⟩ := List.mem_flatMap.mp ((represents.owns.cell?_iff h n).mp held)
  refine ⟨x.root, (represents.mem_roots x.root).mpr ⟨x, tree, rfl⟩, ?_⟩
  rw [Tree.cells, List.mem_cons] at inside
  rcases inside with same | inside
  · obtain ⟨rfl, -⟩ := Prod.mk.inj same
    exact Relation.ReflTransGen.refl
  · obtain ⟨-, holds, -⟩ := represents.tree tree
    exact (holds.reaches_top (Term.mem_handles_of_mem_cells inside)).tail (namesParent_of_cell? holds.top rfl)

theorem intact (represents : A.Represents trees) (nodup : A.roots.Nodup) : A.Intact where
  root_of_mem root listed := by
    have variant := (represents.wellFormed.mem_roots root).mp listed
    obtain ⟨n, held, -⟩ := cell?_of_variant variant
    exact ⟨isLive_of_cell? held, variant, represents.wellFormed.root_unheld variant⟩
  nodup_roots := nodup
  mem_of_root h _ root := (represents.wellFormed.mem_roots h).mpr root
  held_once h live inner := by
    obtain ⟨p, slot, named, child, once⟩ := represents.wellFormed.held_once live
      fun root => inner ((represents.wellFormed.mem_roots h).mpr root)
    obtain ⟨n, held, -⟩ := cell?_of_child child
    exact ⟨p, slot, isLive_of_cell? held, named, child, once⟩
  below_root _ live := represents.below_root live
  live_eq_sum := represents.live_eq_sum nodup

end Represents

end Arena

end Propositional
