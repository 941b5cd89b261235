import Propositional.Proofs.Arena.Intact
import Propositional.Proofs.Optimizer.Run

/-!
# What a pass leaves alone

A pass changes the subtree of the node that it starts from, and which node hangs in the place of that
node. Nodes above, beside it and in other trees stay as they are, and no node is added outside the
subtree that hangs there afterwards.
-/

namespace Propositional

namespace Arena

variable {A B : Arena} {C : Place} {t s : Term} {h : Handle} {n : Node}

/-- From one arena to the other, nothing has changed but the subtree of a node and, right above it, the
slot that held the node. -/
structure Confined (A B : Arena) (start top : Handle) (inside after : List Handle) : Prop where
  subtree : A.descendants start = .ok inside
  replaced : B.descendants top = .ok after
  roots : B.roots = A.roots
  kept : ∀ h n, h ∉ inside → A.parent start ≠ .ok (some h) → A.node h = .ok n → B.node h = .ok n
  none_added : ∀ h n, h ∉ after → A.parent start ≠ .ok (some h) → B.node h = .ok n → A.node h = .ok n
  slot : ∀ p, A.parent start = .ok (some p) → ∃ n slot shape, A.node p = .ok n ∧
    n.shape.child? slot = some start ∧ n.shape.setChild? slot top = some shape ∧
    B.node p = .ok { n with shape } ∧ B.parent top = .ok (some p)
  root : A.variant start = .ok .root → top = start ∧ B.variant start = .ok .root ∧ B.parent start = .ok none

namespace Represents

theorem node_of_outside (before : A.Represents (C.fill t)) (after : B.Represents (C.fill s))
    (outside : h ∉ t.handles) (other : h ≠ C.parent) (read : A.node h = .ok n) : B.node h = .ok n := by
  have member := (before.owns_at.cell?_iff h n).mp (cell?_of_node read)
  rw [List.mem_cons, List.mem_append] at member
  rcases member with above | below | outer
  · exact absurd (Prod.mk.inj above).1 other
  · exact absurd (Term.mem_handles_of_mem_cells below) outside
  · exact node_of_cell? (after.owns_at.cell? (List.mem_cons_of_mem _ (List.mem_append_right _ outer)))

theorem parent_top (represents : A.Represents (C.fill t)) : A.parent t.handle = .ok (some C.parent) :=
  parent_of_cell? represents.holds.top

theorem confined (before : A.Represents (C.fill t)) (after : B.Represents (C.fill s))
    (roots : B.roots = A.roots) : Confined A B t.handle s.handle t.handles s.handles where
  subtree := before.holds.descendants before.size_lt_bound
  replaced := after.holds.descendants after.size_lt_bound
  roots := roots
  kept h n outside unnamed := by
    refine before.node_of_outside after outside ?_
    rintro rfl
    exact unnamed before.parent_top
  none_added h n outside unnamed := by
    refine after.node_of_outside before outside ?_
    rintro rfl
    exact unnamed before.parent_top
  slot p named := by
    obtain rfl := Option.some.inj (Except.ok.inj (before.parent_top.symm.trans named))
    exact ⟨_, C.slot, _, node_of_cell? before.holder, C.child?_shape _, C.setChild?_shape _ _,
      node_of_cell? after.holder, after.parent_top⟩
  root isRoot := by
    rw [variant_of_cell? before.holds.top] at isRoot
    exact absurd (Except.ok.inj isRoot) (variant_ne_root t)

theorem confined_root {trees trees' : List Tree} {root : Handle}
    (before : A.Represents ((Place.top trees root trees').fill t))
    (after : B.Represents ((Place.top trees root trees').fill s)) (roots : B.roots = A.roots) :
    Confined A B root root (root :: t.handles) (root :: s.handles) where
  subtree := before.descendants_root (x := ⟨root, t⟩) (by simp [Place.fill])
  replaced := after.descendants_root (x := ⟨root, s⟩) (by simp [Place.fill])
  roots := roots
  kept h n outside _ := by
    rw [List.mem_cons, not_or] at outside
    exact before.node_of_outside after outside.2 outside.1
  none_added h n outside _ := by
    rw [List.mem_cons, not_or] at outside
    exact after.node_of_outside before outside.2 outside.1
  slot p named := by
    rw [show A.parent root = .ok none from parent_of_cell? before.holder] at named
    simp at named
  root _ := ⟨rfl, variant_of_cell? after.holder, parent_of_cell? after.holder⟩

end Represents

end Arena

namespace Optimizer

variable {o : Optimizer} {A B : Arena} {C : Place} {t s : Term} {start : Handle}

theorem exists_confined (before : A.Represents (C.fill t)) (after : B.Represents (C.fill s))
    (roots : B.roots = A.roots) (covers : Covers C t start) :
    ∃ top inside outcome, Arena.Confined A B start top inside outcome := by
  rcases covers with rfl | ⟨topmost, rfl⟩
  · exact ⟨_, _, _, before.confined after roots⟩
  · cases C with
    | top trees root trees' => exact ⟨_, _, _, Arena.Represents.confined_root before after roots⟩
    | _ => simp [Place.grandparent] at topmost

/-- With rules of the library, in any order and any number, a pass from a live node ends and is confined
to the subtree of that node. -/
theorem runPass_confined (wellFormed : A.WellFormed) (library : ∀ rule ∈ o.rules, rule ∈ Rule.builtin)
    (live : A.isLive start = .ok true) (verbosity : Verbosity) :
    ∃ B j top inside after, o.runPass verbosity A start = .ok (B, j) ∧
      Arena.Confined A B start top inside after := by
  obtain ⟨trees, represents⟩ := wellFormed.exists_represents
  obtain ⟨laws, follows, members⟩ := exists_laws library
  obtain ⟨C, t, rfl, covers⟩ := exists_covers represents live
  obtain ⟨g, n, -, B, j, s, ran, represented, roots, -⟩ :=
    runPass_reaches follows members represents covers verbosity
  obtain ⟨top, inside, after, confined⟩ := exists_confined represents represented roots covers
  exact ⟨B, j, top, inside, after, ran, confined⟩

theorem runPass_confined_negatedPair :
    ∃ B j top, ({} : Optimizer).runPass .silent Arena.negatedPair ⟨3⟩ = .ok (B, j) ∧
      B.node ⟨5⟩ = .ok ⟨.root ⟨4⟩, none⟩ ∧ B.node ⟨4⟩ = .ok ⟨.not top, some ⟨5⟩⟩ ∧
      B.parent top = .ok (some ⟨4⟩) := by
  have live : Arena.negatedPair.isLive ⟨3⟩ = .ok true := rfl
  obtain ⟨B, j, top, inside, after, ran, confined⟩ :=
    runPass_confined (o := {}) Arena.negatedPair_wellFormed (fun _ member => member) live .silent
  have named : Arena.negatedPair.parent ⟨3⟩ = .ok (some ⟨4⟩) := rfl
  have subtree : Arena.negatedPair.descendants ⟨3⟩ = .ok [⟨3⟩, ⟨1⟩, ⟨2⟩] := rfl
  obtain rfl := Except.ok.inj (subtree.symm.trans confined.subtree)
  obtain ⟨n, slot, shape, above, -, retargeted, written, linked⟩ := confined.slot ⟨4⟩ named
  have negation : Arena.negatedPair.node ⟨4⟩ = .ok ⟨.not ⟨3⟩, some ⟨5⟩⟩ := rfl
  obtain rfl := Except.ok.inj (negation.symm.trans above)
  refine ⟨B, j, top, ran, confined.kept ⟨5⟩ _ (by decide) (by simp [named]) rfl, ?_, linked⟩
  cases slot with
  | zero =>
    obtain rfl := Option.some.inj retargeted
    exact written
  | succ slot => simp [Shape.setChild?] at retargeted

end Optimizer

end Propositional
