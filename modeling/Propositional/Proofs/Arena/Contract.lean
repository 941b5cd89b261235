import Propositional.Proofs.Arena.Admission
import Propositional.Proofs.Optimizer.Frame

/-!
# What a replacement does

Putting an admitted candidate in the place of a node succeeds. The place then holds what the candidate
says: the subtrees that it refers to, moved with their handles, below nodes that are new. Of the replaced
subtree exactly that is given up which was not moved, and no other cell changes.
-/

namespace Propositional

namespace Arena

variable {A B : Arena} {C : Place} {t s : Term} {c : Candidate} {d : Draft Term} {p q : Option Handle}
  {h old parent : Handle} {fresh : List Handle}

/-- The candidate stands under a handle, below a parent. A node that it refers to has moved there from the
first arena and changed its parent only, and nothing below it has changed. Its other nodes have the given
handles, children first. -/
inductive Stands (A B : Arena) : Candidate → Option Handle → Handle → List Handle → Prop
  | existing {h : Handle} {p : Option Handle} {shape : Shape Handle} {below : List Handle}
      (subtree : A.descendants h = .ok (h :: below)) (read : A.shape h = .ok shape)
      (moved : B.node h = .ok ⟨shape, p⟩) (kept : ∀ k ∈ below, B.node k = A.node k) :
      Stands A B (.existing h) p h []
  | binary {left right : Candidate} {p : Option Handle} {h l r : Handle} {freshLeft freshRight : List Handle}
      {op : Connective} (new : B.node h = .ok ⟨.binary op l r, p⟩)
      (first : Stands A B left (some h) l freshLeft) (second : Stands A B right (some h) r freshRight) :
      Stands A B (.binary op left right) p h (freshLeft ++ freshRight ++ [h])
  | not {c : Candidate} {p : Option Handle} {h k : Handle} {fresh : List Handle}
      (new : B.node h = .ok ⟨.not k, p⟩) (below : Stands A B c (some h) k fresh) :
      Stands A B (.not c) p h (fresh ++ [h])
  | parens {c : Candidate} {p : Option Handle} {h k : Handle} {fresh : List Handle}
      (new : B.node h = .ok ⟨.parens k, p⟩) (below : Stands A B c (some h) k fresh) :
      Stands A B (.parens c) p h (fresh ++ [h])
  | id {name : String} {p : Option Handle} {h : Handle} (new : B.node h = .ok ⟨.id name, p⟩) :
      Stands A B (.id name) p h [h]
  | literal {value : Bool} {p : Option Handle} {h : Handle} (new : B.node h = .ok ⟨.literal value, p⟩) :
      Stands A B (.literal value) p h [h]

/-- The node is in the subtree of another. -/
def InSubtree (A : Arena) (top h : Handle) : Prop := ∃ below, A.descendants top = .ok below ∧ h ∈ below

/-- From one arena to the other, the candidate has taken the place of a node below a parent. -/
structure Substituted (A B : Arena) (parent old : Handle) (c : Candidate) (fresh : List Handle) : Prop where
  wellFormed : B.WellFormed
  roots : B.roots = A.roots
  placed : ∃ n slot shape top, A.node parent = .ok n ∧ n.shape.child? slot = some old ∧
    n.shape.setChild? slot top = some shape ∧ B.node parent = .ok { n with shape } ∧
    Stands A B c (some parent) top fresh
  freed : ∀ h, (A.isLive h = .ok true ∧ B.isLive h ≠ .ok true) ↔
    A.InSubtree old h ∧ ∀ m ∈ c.moved, ¬ A.InSubtree m h
  allocated : ∀ h, (B.isLive h = .ok true ∧ A.isLive h ≠ .ok true) ↔ h ∈ fresh
  counted : fresh.length = c.freshCount
  distinct : fresh.Nodup
  kept : ∀ h n, ¬ A.InSubtree old h → h ≠ parent → h ∉ fresh → (A.node h = .ok n ↔ B.node h = .ok n)

theorem Holds.inSubtree_iff (holds : A.Holds p t) (small : t.size < A.bound) :
    A.InSubtree t.handle h ↔ h ∈ t.handles := by
  unfold InSubtree
  rw [holds.descendants small]
  simp

theorem Holds.node_below {k : Handle} (left : A.Holds p t) (right : B.Holds q t)
    (below : k ∈ t.children.flatMap Term.handles) : B.node k = A.node k := by
  obtain ⟨c, child, inside⟩ := List.mem_flatMap.mp below
  rw [← Term.map_fst_cells (some t.handle) c] at inside
  obtain ⟨⟨_, n⟩, cell, rfl⟩ := List.mem_map.mp inside
  rw [node_of_cell? (left.child child _ cell), node_of_cell? (right.child child _ cell)]

theorem stands_of_builds (builds : d.Builds fresh s) (holds : B.Holds p s)
    (parts : ∀ u ∈ d.parts, ∃ q, A.Holds q u ∧ u.size < A.bound) :
    Stands A B d.candidate p s.handle fresh := by
  induction builds generalizing p with
  | moved t =>
    obtain ⟨q, before, small⟩ := parts t List.mem_cons_self
    have subtree := before.descendants small
    rw [Term.handles_eq] at subtree
    exact .existing subtree before.shape (node_of_cell? holds.top) fun k below => before.node_below holds below
  | binary op h first second ihl ihr =>
    refine .binary (node_of_cell? holds.top) (ihl (holds.child (by simp [Term.children])) ?_)
      (ihr (holds.child (by simp [Term.children])) ?_)
    · intro u part
      exact parts u (List.mem_append_left _ part)
    · intro u part
      exact parts u (List.mem_append_right _ part)
  | not h below ih => exact .not (node_of_cell? holds.top) (ih (holds.child (by simp [Term.children])) parts)
  | parens h below ih =>
    exact .parens (node_of_cell? holds.top) (ih (holds.child (by simp [Term.children])) parts)
  | id h name => exact .id (node_of_cell? holds.top)
  | literal h value => exact .literal (node_of_cell? holds.top)

theorem length_of_builds (builds : d.Builds fresh s) : fresh.length = d.candidate.freshCount := by
  induction builds with
  | moved t => rfl
  | binary op h first second ihl ihr =>
    simp only [Draft.candidate, Candidate.freshCount, List.length_append, List.length_singleton]
    omega
  | not h below ih | parens h below ih =>
    simp only [Draft.candidate, Candidate.freshCount, List.length_append, List.length_singleton]
    omega
  | id h name | literal h value => rfl

namespace Represents

theorem isLive_iff (represents : A.Represents (C.fill t)) :
    A.isLive h = .ok true ↔ h = C.parent ∨ h ∈ t.handles ∨ h ∈ C.outer.map Prod.fst := by
  have keys : (∃ n, A.cell? h = some n) ↔
      h ∈ (C.holder t.handle :: (t.cells (some C.parent) ++ C.outer)).map Prod.fst := by
    rw [List.mem_map]
    constructor
    · rintro ⟨n, held⟩
      exact ⟨(h, n), (represents.owns_at.cell?_iff h n).mp held, rfl⟩
    · rintro ⟨⟨_, n⟩, member, rfl⟩
      exact ⟨n, represents.owns_at.cell? member⟩
  rw [List.map_cons, List.map_append, Term.map_fst_cells, List.mem_cons, List.mem_append] at keys
  rw [← show C.parent = (C.holder t.handle).1 from rfl] at keys
  exact Iff.trans ⟨cell?_of_isLive, fun ⟨_, held⟩ => isLive_of_cell? held⟩ keys

theorem inside_apart (represents : A.Represents (C.fill t)) (inside : h ∈ t.handles) :
    h ≠ C.parent ∧ h ∉ C.outer.map Prod.fst := by
  have nodup := represents.owns_at.nodup
  rw [List.map_cons, List.nodup_cons, List.map_append, Term.map_fst_cells] at nodup
  constructor
  · rintro rfl
    exact nodup.1 (List.mem_append_left _ inside)
  · exact List.disjoint_of_nodup_append nodup.2 inside

theorem exists_holds_of_part (represents : A.Represents (C.fill t)) (within : d.Within t) :
    ∀ u ∈ d.parts, ∃ q, A.Holds q u ∧ u.size < A.bound := by
  intro u part
  obtain ⟨q, inside⟩ := within.inside none u part
  exact represents.holds_inside inside

theorem inSubtree_moved_iff (represents : A.Represents (C.fill t)) (within : d.Within t) :
    (∃ m ∈ d.candidate.moved, A.InSubtree m h) ↔ h ∈ d.parts.flatMap Term.handles := by
  have holds := represents.exists_holds_of_part within
  rw [d.moved_candidate, List.mem_flatMap]
  constructor
  · rintro ⟨m, member, inside⟩
    obtain ⟨u, part, rfl⟩ := List.mem_map.mp member
    obtain ⟨q, held, small⟩ := holds u part
    exact ⟨u, part, (held.inSubtree_iff small).mp inside⟩
  · rintro ⟨u, part, inside⟩
    obtain ⟨q, held, small⟩ := holds u part
    exact ⟨u.handle, List.mem_map_of_mem part, (held.inSubtree_iff small).mpr inside⟩

section Replaced

variable (before : A.Represents (C.fill t)) (after : B.Represents (C.fill s)) (within : d.Within t)
  (builds : d.Builds fresh s) (vacant : ∀ h ∈ fresh, A.cell? h = none)

theorem mem_handles_iff_of_builds (builds : d.Builds fresh s) :
    h ∈ s.handles ↔ h ∈ fresh ∨ h ∈ d.parts.flatMap Term.handles := by
  rw [builds.handles_perm.mem_iff, List.mem_append]

theorem parts_inside (within : d.Within t) (member : h ∈ d.parts.flatMap Term.handles) : h ∈ t.handles := by
  obtain ⟨u, part, inside⟩ := List.mem_flatMap.mp member
  obtain ⟨q, below⟩ := within.inside none u part
  exact Term.handles_subset_of_mem_subterms below inside

theorem not_live_of_vacant (vacant : ∀ h ∈ fresh, A.cell? h = none) (new : h ∈ fresh) :
    A.isLive h ≠ .ok true := by
  intro live
  obtain ⟨n, held⟩ := cell?_of_isLive live
  rw [vacant h new] at held
  cases held

include before after within builds vacant

theorem freed_iff : (A.isLive h = .ok true ∧ B.isLive h ≠ .ok true) ↔
    A.InSubtree t.handle h ∧ ∀ m ∈ d.candidate.moved, ¬ A.InSubtree m h := by
  have unmoved : (∀ m ∈ d.candidate.moved, ¬ A.InSubtree m h) ↔ h ∉ d.parts.flatMap Term.handles := by
    rw [← before.inSubtree_moved_iff within]
    simp
  rw [before.isLive_iff, Ne, after.isLive_iff, mem_handles_iff_of_builds builds, unmoved,
    before.holds.inSubtree_iff before.size_lt_bound]
  constructor
  · rintro ⟨live, gone⟩
    rw [not_or, not_or, not_or] at gone
    obtain ⟨other, ⟨-, unmoved⟩, elsewhere⟩ := gone
    rcases live with same | inside | outer
    · exact absurd same other
    · exact ⟨inside, unmoved⟩
    · exact absurd outer elsewhere
  · rintro ⟨inside, unmoved⟩
    obtain ⟨other, elsewhere⟩ := before.inside_apart inside
    refine ⟨Or.inr (Or.inl inside), ?_⟩
    rintro (same | (new | moved) | outer)
    · exact other same
    · exact not_live_of_vacant vacant new (before.isLive_iff.mpr (Or.inr (Or.inl inside)))
    · exact unmoved moved
    · exact elsewhere outer

theorem allocated_iff : (B.isLive h = .ok true ∧ A.isLive h ≠ .ok true) ↔ h ∈ fresh := by
  constructor
  · rintro ⟨live, dead⟩
    rw [Ne, before.isLive_iff, not_or, not_or] at dead
    obtain ⟨other, outside, elsewhere⟩ := dead
    rw [after.isLive_iff, mem_handles_iff_of_builds builds] at live
    rcases live with same | (new | moved) | outer
    · exact absurd same other
    · exact new
    · exact absurd (parts_inside within moved) outside
    · exact absurd outer elsewhere
  · intro new
    have inside : h ∈ s.handles := (mem_handles_iff_of_builds builds).mpr (Or.inl new)
    exact ⟨after.isLive_iff.mpr (Or.inr (Or.inl inside)), not_live_of_vacant vacant new⟩

theorem substituted (roots : B.roots = A.roots) :
    Substituted A B C.parent t.handle d.candidate fresh where
  wellFormed := after.wellFormed
  roots := roots
  placed := ⟨_, C.slot, _, s.handle, node_of_cell? before.holder, C.child?_shape _, C.setChild?_shape _ _,
    node_of_cell? after.holder, stands_of_builds builds after.holds (before.exists_holds_of_part within)⟩
  freed _ := before.freed_iff after within builds vacant
  allocated _ := before.allocated_iff after within builds vacant
  counted := length_of_builds builds
  distinct := by
    have nodup := after.nodup
    rw [builds.handles_perm.nodup_iff] at nodup
    exact nodup.of_append_left
  kept h n outside other old := by
    rw [before.holds.inSubtree_iff before.size_lt_bound] at outside
    have outside' : h ∉ s.handles := by
      rw [mem_handles_iff_of_builds builds]
      rintro (new | moved)
      · exact old new
      · exact outside (parts_inside within moved)
    exact ⟨before.node_of_outside after outside other, after.node_of_outside before outside' other⟩

end Replaced

end Represents

/-- An admitted candidate takes the place of an attached node. -/
theorem substitute_substituted (wellFormed : A.WellFormed) (attached : A.parent old = .ok (some parent))
    (admits : A.Admits old c) :
    ∃ fresh B, A.substitute old c = .ok (fresh, B) ∧ Substituted A B parent old c fresh := by
  obtain ⟨C, t, represents, rfl, rfl⟩ := wellFormed.exists_place attached
  obtain ⟨d, rfl, within, changes⟩ := represents.exists_draft admits
  obtain ⟨s, fresh, B, replaced, builds, after, roots, vacant⟩ := represents.substitute within changes
  exact ⟨fresh, B, replaced, represents.substituted after within builds vacant roots⟩

theorem negatedPair_admits : negatedPair.Admits ⟨3⟩ (.binary .or (.existing ⟨1⟩) (.literal false)) where
  changes := by decide
  distinct := by decide
  inside m member := by
    obtain rfl : m = ⟨1⟩ := by simpa [Candidate.moved] using member
    exact ⟨[⟨3⟩, ⟨1⟩, ⟨2⟩], rfl, by decide⟩
  apart m first k second below _ _ := by
    obtain rfl : m = ⟨1⟩ := by simpa [Candidate.moved] using first
    simpa [Candidate.moved] using second

theorem substitute_substituted_negatedPair : ∃ B,
    negatedPair.substitute ⟨3⟩ (.binary .or (.existing ⟨1⟩) (.literal false)) = .ok ([⟨6⟩, ⟨7⟩], B) ∧
    Substituted negatedPair B ⟨4⟩ ⟨3⟩ (.binary .or (.existing ⟨1⟩) (.literal false)) [⟨6⟩, ⟨7⟩] := by
  have attached : negatedPair.parent ⟨3⟩ = .ok (some ⟨4⟩) := rfl
  obtain ⟨fresh, B, replaced, substituted⟩ :=
    substitute_substituted negatedPair_wellFormed attached negatedPair_admits
  have new : (negatedPair.substitute ⟨3⟩ (.binary .or (.existing ⟨1⟩) (.literal false))).map Prod.fst =
      .ok [⟨6⟩, ⟨7⟩] := by decide +kernel
  rw [replaced] at new
  obtain rfl := Except.ok.inj new
  exact ⟨B, replaced, substituted⟩

end Arena

end Propositional
