import Propositional.Proofs.Arena.Contract
import Propositional.Proofs.Optimizer.Termination

/-!
# Walks

A walk visits the nodes that were in a subtree before it, each after its children, whatever the visits
replace on the way. A visit can only change what hangs in the place of its node, and the nodes that are
still to be visited hang outside that place: they are its ancestors and what is to the right of it.
-/

namespace Propositional

/-! ### The order of the nodes -/

def Arena.postorder (A : Arena) : Handle → Checked (List Handle) :=
  A.fold fun h shape => shape.children.flatten ++ [h]

namespace Term

def postorder : Term → List Handle
  | binary h _ left right => left.postorder ++ (right.postorder ++ [h])
  | not h child | parens h child => child.postorder ++ [h]
  | id h _ | literal h _ => [h]

theorem fold_postorder (t : Term) :
    t.fold (fun h shape => shape.children.flatten ++ [h]) = t.postorder := by
  induction t <;> simp_all [fold, postorder, Shape.children]

theorem postorder_perm (t : Term) : t.postorder.Perm t.handles := by
  induction t with
  | binary h op left right ihl ihr =>
    rw [postorder, handles, ← List.append_assoc]
    exact (List.perm_append_singleton h _).trans ((ihl.append ihr).cons h)
  | not h child ih | parens h child ih => exact (List.perm_append_singleton h _).trans (ih.cons h)
  | id | literal => exact List.Perm.refl _

theorem mem_postorder {t : Term} {h : Handle} : h ∈ t.postorder ↔ h ∈ t.handles := t.postorder_perm.mem_iff

end Term

namespace Arena

variable {A B : Arena} {C : Place} {t s : Term} {h k top : Handle} {n : Node}

/-! ### One replacement -/

/-- From one arena to the other, a subtree has taken the place of that of a node. Nothing else has
changed but the slot that held the node. -/
structure Replaces (A B : Arena) (h top : Handle) : Prop where
  wellFormed : B.WellFormed
  roots : B.roots = A.roots
  placed : ∃ parent n slot shape, A.node parent = .ok n ∧ n.shape.child? slot = some h ∧
    n.shape.setChild? slot top = some shape ∧ B.node parent = .ok { n with shape }
  kept : ∀ k n, ¬ A.InSubtree h k → A.parent h ≠ .ok (some k) → A.node k = .ok n → B.node k = .ok n

namespace Represents

theorem replaces (before : A.Represents (C.fill t)) (after : B.Represents (C.fill s)) (roots : B.roots = A.roots) :
    Replaces A B t.handle s.handle where
  wellFormed := after.wellFormed
  roots := roots
  placed := ⟨C.parent, _, C.slot, _, node_of_cell? before.holder, C.child?_shape _, C.setChild?_shape _ _,
    node_of_cell? after.holder⟩
  kept k n outside unnamed := by
    rw [before.holds.inSubtree_iff before.size_lt_bound] at outside
    apply before.node_of_outside after outside
    rintro rfl
    exact unnamed before.parent_top

theorem holder_of_replaces (represents : A.Represents (C.fill t)) (replaces : Replaces A B t.handle top) :
    B.cell? C.parent = some ⟨C.shape top, C.grandparent⟩ := by
  obtain ⟨parent, n, slot, shape, above, holds, retargeted, written⟩ := replaces.placed
  have child : A.child parent slot = .ok (some t.handle) := by
    rw [child_of_cell? (cell?_of_node above), holds]
  have child' : A.child C.parent C.slot = .ok (some t.handle) := by
    rw [child_of_cell? represents.holder, C.child?_shape]
  obtain ⟨rfl, rfl⟩ := represents.wellFormed.slot_unique child child'
  have holder := represents.holder
  rw [cell?_of_node above] at holder
  obtain rfl := Option.some.inj holder
  rw [C.setChild?_shape] at retargeted
  obtain rfl := Option.some.inj retargeted
  exact cell?_of_node written

theorem parent_not_mem_outer (represents : A.Represents (C.fill t)) : C.parent ∉ C.outer.map Prod.fst := by
  have nodup := represents.owns_at.nodup
  rw [List.map_cons, List.nodup_cons, List.map_append] at nodup
  intro member
  exact nodup.1 (List.mem_append_right _ member)

theorem replaced (represents : A.Represents (C.fill t)) (replaces : Replaces A B t.handle top) :
    ∃ s, B.Represents (C.fill s) ∧ s.handle = top := by
  have holder := represents.holder_of_replaces replaces
  have child : B.child C.parent C.slot = .ok (some top) := by
    rw [child_of_cell? holder, C.child?_shape]
  obtain ⟨trees, forest⟩ := replaces.wellFormed.exists_represents
  obtain ⟨D, s, rfl, rfl, above, -⟩ := forest.child_place child
  have holds : B.Holds (some C.parent) s := above ▸ forest.holds
  refine ⟨s, ?_, rfl⟩
  -- The cells of the old forest with the new term in the place are all there.
  have held : ∀ cell ∈ forestCells (C.fill s), B.cell? cell.1 = some cell.2 := by
    intro cell member
    rw [(C.forestCells_fill s).mem_iff, List.mem_cons, List.mem_append] at member
    rcases member with rfl | inside | outside
    · exact holder
    · exact holds cell inside
    · have other : cell.1 ∈ C.outer.map Prod.fst := List.mem_map_of_mem outside
      have read : A.cell? cell.1 = some cell.2 :=
        represents.owns_at.cell? (List.mem_cons_of_mem _ (List.mem_append_right _ outside))
      apply cell?_of_node
      apply replaces.kept cell.1 cell.2 _ _ (node_of_cell? read)
      · rw [represents.holds.inSubtree_iff represents.size_lt_bound]
        intro inside
        exact (represents.inside_apart inside).2 other
      · rw [represents.parent_top]
        intro same
        rw [← Option.some.inj (Except.ok.inj same)] at other
        exact represents.parent_not_mem_outer other
  apply replaces.wellFormed.represents_of_trees
  · have nodup := represents.nodup_roots
    rw [C.fill_eq, List.map_append, List.map_cons] at nodup ⊢
    exact nodup
  · intro h
    rw [replaces.roots, represents.mem_roots, C.root_mem_fill t s]
  · intro x tree
    have inside : ∀ cell ∈ x.cells, B.cell? cell.1 = some cell.2 :=
      fun cell member => held cell (List.mem_flatMap_of_mem tree member)
    exact ⟨inside _ List.mem_cons_self, fun cell member => inside cell (List.mem_cons_of_mem _ member)⟩

end Represents

theorem substitute_replaces {old parent : Handle} {c : Candidate} (wellFormed : A.WellFormed)
    (attached : A.parent old = .ok (some parent)) (admits : A.Admits old c) :
    ∃ fresh B top, A.substitute old c = .ok (fresh, B) ∧ Replaces A B old top := by
  obtain ⟨C, t, represents, rfl, rfl⟩ := wellFormed.exists_place attached
  obtain ⟨d, rfl, within, changes⟩ := represents.exists_draft admits
  obtain ⟨s, fresh, B, substituted, -, after, roots, -⟩ := represents.substitute within changes
  exact ⟨fresh, B, s.handle, substituted, represents.replaces after roots⟩

/-! ### Visits -/

variable {τ : Type} {attempt : Visit τ} {notes : τ}

/-- What one visit was: its node, the arenas before and after it, and what it reported. -/
structure Visited where
  handle : Handle
  before : Arena
  after : Arena
  replaced : Bool

/-- The same attempts, with a record of the visits. -/
def recording (attempt : Visit τ) : Visit (τ × List Visited) := fun h A (notes, log) => do
  let (replaced, B, notes) ← attempt h A notes
  return (replaced, B, notes, log ++ [⟨h, A, B, replaced⟩])

def Walk.forget (w : Walk (τ × List Visited)) : Walk τ :=
  { arena := w.arena, notes := w.notes.1, replaced := w.replaced }

theorem visit_recording (attempt : Visit τ) (w : Walk (τ × List Visited)) (h : Handle) :
    (w.visit (recording attempt) h).map Walk.forget = w.forget.visit attempt h := by
  rw [Walk.visit, Walk.visit, recording, Walk.forget]
  cases attempt h w.arena w.notes.1 <;> rfl

theorem fromSlot_recording (attempt : Visit τ) (fuel : Nat) (h : Handle) (slot : Nat)
    (w : Walk (τ × List Visited)) :
    (Walk.fromSlot (recording attempt) fuel h slot w).map Walk.forget =
      Walk.fromSlot attempt fuel h slot w.forget := by
  induction fuel generalizing h slot w with
  | zero => rfl
  | succ fuel ih =>
    rw [Walk.fromSlot, Walk.fromSlot, show w.forget.arena = w.arena from rfl]
    cases w.arena.child h slot with
    | error fault => rfl
    | ok child =>
      cases child with
      | none => exact visit_recording attempt w h
      | some child =>
        simp only [bind, Except.bind, ← ih child 0 w]
        cases Walk.fromSlot (recording attempt) fuel child 0 w with
        | error fault => rfl
        | ok w' => exact ih h (slot + 1) w'

/-- Asked about some nodes in a row, the attempts answer, and each leaves the arena alone or replaces
its node. -/
def Behaves (attempt : Visit τ) : List Handle → Arena → τ → Prop
  | [], _, _ => True
  | h :: later, A, notes => ∃ replaced B notes', attempt h A notes = .ok (replaced, B, notes') ∧
      (B = A ∨ ∃ top, Replaces A B h top) ∧ Behaves attempt later B notes'

/-- The visit has nothing to do with a node: it is there before and after, neither in the subtree of the
visited node nor in what has taken its place. -/
structure Visited.Spares (v : Visited) (k : Handle) : Prop where
  live_before : v.before.isLive k = .ok true
  live_after : v.after.isLive k = .ok true
  outside : ¬ v.before.InSubtree v.handle k
  unplaced : ∀ top, Replaces v.before v.after v.handle top → ¬ v.after.InSubtree top k

end Arena

namespace Place

variable {C : Place} {h k : Handle} {op : Connective} {sibling : Term}

def Outside (C : Place) (k : Handle) : Prop := k = C.parent ∨ k ∈ C.outer.map Prod.fst

theorem outside_left : (left C h op sibling).Outside k ↔ k = h ∨ k ∈ sibling.handles ∨ C.Outside k := by
  simp only [Outside, parent, outer, holder, List.map_append, List.map_cons, Term.map_fst_cells,
    List.mem_append, List.mem_cons]

theorem outside_right : (right C h op sibling).Outside k ↔ k = h ∨ k ∈ sibling.handles ∨ C.Outside k :=
  @outside_left C h k op sibling

theorem outside_not : (not C h).Outside k ↔ k = h ∨ C.Outside k := by
  simp only [Outside, parent, outer, holder, List.map_cons, List.mem_cons]

theorem outside_parens : (parens C h).Outside k ↔ k = h ∨ C.Outside k := outside_not

end Place

namespace Arena

variable {A B : Arena} {C : Place} {t s : Term} {h k top : Handle} {n : Node}

/-- The visits were made to the nodes in the given order. Each node was there at that time, and no earlier
visit had anything to do with it. -/
structure Tour {τ : Type} (attempt : Visit τ) (order : List Handle) (log : List Visited) : Prop where
  handles : log.map Visited.handle = order
  made : ∀ v ∈ log, ∃ notes notes', attempt v.handle v.before notes = .ok (v.replaced, v.after, notes')
  live : ∀ v ∈ log, v.before.isLive v.handle = .ok true
  spares_later : log.Pairwise fun u v => u.Spares v.handle

section Tour

variable {τ : Type} {attempt : Visit τ} {first second : List Handle} {log later : List Visited}

theorem Tour.append (left : Tour attempt first log) (right : Tour attempt second later)
    (apart : ∀ v ∈ log, ∀ k ∈ second, v.Spares k) : Tour attempt (first ++ second) (log ++ later) where
  handles := by rw [List.map_append, left.handles, right.handles]
  made v member := (List.mem_append.mp member).elim (left.made v) (right.made v)
  live v member := (List.mem_append.mp member).elim (left.live v) (right.live v)
  spares_later := by
    refine List.pairwise_append.mpr ⟨left.spares_later, right.spares_later, fun u earlier v member => ?_⟩
    apply apart u earlier
    rw [← right.handles]
    exact List.mem_map_of_mem member

theorem tour_of_attempt {notes notes' : τ} {replaced : Bool}
    (attempted : attempt h A notes = .ok (replaced, B, notes')) (live : A.isLive h = .ok true) :
    Tour attempt [h] [⟨h, A, B, replaced⟩] where
  handles := rfl
  made v member := by
    obtain rfl := List.mem_singleton.mp member
    exact ⟨notes, notes', attempted⟩
  live v member := by
    obtain rfl := List.mem_singleton.mp member
    exact live
  spares_later := List.pairwise_singleton _ _

structure Toured (attempt : Visit τ) (C : Place) (order : List Handle) (log : List Visited) : Prop
    extends Tour attempt order log where
  spares_outside : ∀ v ∈ log, ∀ k, C.Outside k → v.Spares k

theorem Toured.append {D E : Place} (left : Toured attempt D first log) (right : Toured attempt E second later)
    (apart : ∀ k, k ∈ second ∨ C.Outside k → D.Outside k) (within : ∀ k, C.Outside k → E.Outside k) :
    Toured attempt C (first ++ second) (log ++ later) where
  toTour := by
    apply left.toTour.append right.toTour
    intro v member k next
    exact left.spares_outside v member k (apart k (Or.inl next))
  spares_outside := by
    intro v member k outside
    rcases List.mem_append.mp member with member | member
    · exact left.spares_outside v member k (apart k (Or.inr outside))
    · exact right.spares_outside v member k (within k outside)

end Tour

theorem Represents.not_inSubtree_of_outside (represents : A.Represents (C.fill t)) (outside : C.Outside k) :
    ¬ A.InSubtree t.handle k := by
  rw [represents.holds.inSubtree_iff represents.size_lt_bound]
  intro inside
  obtain ⟨other, elsewhere⟩ := represents.inside_apart inside
  rcases outside with same | outer
  · exact other same
  · exact elsewhere outer

theorem Represents.isLive_of_outside (represents : A.Represents (C.fill t)) (outside : C.Outside k) :
    A.isLive k = .ok true := by
  apply represents.isLive_iff.mpr
  rcases outside with same | outer
  · exact Or.inl same
  · exact Or.inr (Or.inr outer)

theorem Represents.spares (before : A.Represents (C.fill t)) (after : B.Represents (C.fill s)) (replaced : Bool)
    (outside : C.Outside k) : Visited.Spares ⟨t.handle, A, B, replaced⟩ k where
  live_before := before.isLive_of_outside outside
  live_after := after.isLive_of_outside outside
  outside := before.not_inSubtree_of_outside outside
  unplaced top replaces := by
    obtain ⟨s', placed, rfl⟩ := before.replaced replaces
    exact placed.not_inSubtree_of_outside outside

variable {τ : Type} {attempt : Visit τ} {order later : List Handle} {w w' w₁ : Walk (τ × List Visited)}
  {slot fuel : Nat}

/-- From one state of the walk to another, the nodes have been visited in the given order, in the place,
and the attempts will behave at those that come later. -/
structure Leads (attempt : Visit τ) (C : Place) (order later : List Handle) (w w' : Walk (τ × List Visited)) :
    Prop where
  place : ∃ s, w'.arena.Represents (C.fill s)
  roots : w'.arena.roots = w.arena.roots
  behaves : Behaves attempt later w'.arena w'.notes.1
  toured : ∃ log, Toured attempt C order log ∧ w'.notes.2 = w.notes.2 ++ log ∧
    w'.replaced = w.replaced + log.countP Visited.replaced

theorem Leads.append {D E : Place} {first second rest : List Handle} (left : Leads attempt D first rest w w₁)
    (right : Leads attempt E second later w₁ w') (place : ∃ s, w'.arena.Represents (C.fill s))
    (apart : ∀ k, k ∈ second ∨ C.Outside k → D.Outside k) (within : ∀ k, C.Outside k → E.Outside k) :
    Leads attempt C (first ++ second) later w w' where
  place := place
  roots := right.roots.trans left.roots
  behaves := right.behaves
  toured := by
    obtain ⟨log, toured, written, counted⟩ := left.toured
    obtain ⟨log', toured', written', counted'⟩ := right.toured
    refine ⟨log ++ log', toured.append toured' apart within, ?_, ?_⟩
    · rw [written', written, List.append_assoc]
    · rw [counted', counted, List.countP_append, Nat.add_assoc]

theorem visit_leads (represents : w.arena.Represents (C.fill t))
    (behaves : Behaves attempt (t.handle :: later) w.arena w.notes.1) :
    ∃ w', w.visit (recording attempt) t.handle = .ok w' ∧ Leads attempt C [t.handle] later w w' := by
  obtain ⟨replaced, B, notes, attempted, change, behaves⟩ := behaves
  have placed : ∃ s, B.Represents (C.fill s) := by
    rcases change with rfl | ⟨top, replaces⟩
    · exact ⟨t, represents⟩
    · obtain ⟨s, placed, -⟩ := represents.replaced replaces
      exact ⟨s, placed⟩
  have roots : B.roots = w.arena.roots := by
    rcases change with rfl | ⟨top, replaces⟩
    · rfl
    · exact replaces.roots
  obtain ⟨s, after⟩ := placed
  rw [Walk.visit, recording, attempted]
  refine ⟨_, rfl, ⟨s, after⟩, roots, behaves, [⟨t.handle, w.arena, B, replaced⟩],
    ⟨tour_of_attempt attempted (isLive_of_cell? represents.holds.top), ?_⟩, rfl, ?_⟩
  · intro v member k outside
    obtain rfl := List.mem_singleton.mp member
    exact represents.spares after replaced outside
  · cases replaced <;> rfl

theorem fromSlot_of_child {σ : Type} {attempt : Visit σ} {w w₁ : Walk σ}
    (read : w.arena.child h slot = .ok (some k)) (below : Walk.fromSlot attempt fuel k 0 w = .ok w₁) :
    Walk.fromSlot attempt (fuel + 1) h slot w = Walk.fromSlot attempt fuel h (slot + 1) w₁ := by
  rw [Walk.fromSlot, read]
  simp only [bind, Except.bind, below]

theorem fromSlot_of_last {σ : Type} {attempt : Visit σ} {w : Walk σ} (read : w.arena.child h slot = .ok none) :
    Walk.fromSlot attempt (fuel + 1) h slot w = w.visit attempt h := by
  rw [Walk.fromSlot, read]
  rfl

theorem fromSlot_last_child {D : Place} {first : List Handle} (read : w.arena.child t.handle slot = .ok (some k))
    (below : Walk.fromSlot (recording attempt) (fuel + 1) k 0 w = .ok w₁)
    (leads : Leads attempt D first (t.handle :: later) w w₁) (top : w₁.arena.Represents (C.fill t))
    (last : t.shape.child? (slot + 1) = none) (above : ∀ k, k = t.handle ∨ C.Outside k → D.Outside k) :
    ∃ w', Walk.fromSlot (recording attempt) (fuel + 2) t.handle slot w = .ok w' ∧
      Leads attempt C (first ++ [t.handle]) later w w' := by
  obtain ⟨w', visited, leads'⟩ := visit_leads top leads.behaves
  have none_left : w₁.arena.child t.handle (slot + 1) = .ok none := by
    rw [Optimizer.child_of_represents top, last]
  refine ⟨w', ?_, ?_⟩
  · rw [fromSlot_of_child read below, fromSlot_of_last none_left]
    exact visited
  · apply leads.append leads' leads'.place
    · intro k later
      exact above k (later.imp_left List.mem_singleton.mp)
    · exact fun k outside => outside

/-- The walk through a term visits the nodes that the term had when the walk came to it. -/
theorem fromSlot_leads (represents : w.arena.Represents (C.fill t))
    (behaves : Behaves attempt (t.postorder ++ later) w.arena w.notes.1) (deep : 2 * t.size ≤ fuel) :
    ∃ w', Walk.fromSlot (recording attempt) fuel t.handle 0 w = .ok w' ∧
      Leads attempt C t.postorder later w w' := by
  induction t generalizing C w fuel later with
  | binary h op left right ihl ihr =>
    rw [Term.size_binary] at deep
    obtain ⟨fuel, rfl⟩ : ∃ m, fuel = m + 3 := ⟨fuel - 3, by have := left.size_pos; omega⟩
    rw [Term.postorder, List.append_assoc, List.append_assoc] at behaves
    obtain ⟨w₁, walked₁, leads₁⟩ := ihl (C := .left C h op right) represents behaves (show _ ≤ fuel + 2 by omega)
    obtain ⟨l, represents₁⟩ := leads₁.place
    obtain ⟨w₂, walked₂, leads₂⟩ :=
      ihr (C := .right C h op l) represents₁ leads₁.behaves (show _ ≤ fuel + 1 by omega)
    obtain ⟨r, represents₂⟩ := leads₂.place
    have read₀ : w.arena.child h 0 = .ok (some left.handle) := Optimizer.child_of_represents represents 0
    have read₁ : w₁.arena.child h 1 = .ok (some right.handle) :=
      Optimizer.child_of_represents (t := .binary h op l right) represents₁ 1
    obtain ⟨w', walked, leads⟩ := fromSlot_last_child (t := .binary h op l r) read₁ walked₂ leads₂ represents₂ rfl
      (fun k above => Place.outside_right.mpr (above.imp_right Or.inr))
    refine ⟨w', (fromSlot_of_child read₀ walked₁).trans walked, ?_⟩
    apply leads₁.append leads leads.place
    · -- What comes after the left operand is right of it or above it.
      intro k later
      rw [List.mem_append, List.mem_singleton, Term.mem_postorder] at later
      rw [Place.outside_left]
      rcases later with (right | same) | outside
      · exact Or.inr (Or.inl right)
      · exact Or.inl same
      · exact Or.inr (Or.inr outside)
    · exact fun k outside => outside
  | not h child ih =>
    rw [Term.size_not] at deep
    obtain ⟨fuel, rfl⟩ : ∃ m, fuel = m + 2 := ⟨fuel - 2, by omega⟩
    rw [Term.postorder, List.append_assoc] at behaves
    obtain ⟨w₁, walked₁, leads₁⟩ := ih (C := .not C h) represents behaves (show _ ≤ fuel + 1 by omega)
    obtain ⟨c, represents₁⟩ := leads₁.place
    have read : w.arena.child h 0 = .ok (some child.handle) := Optimizer.child_of_represents represents 0
    exact fromSlot_last_child (t := .not h c) read walked₁ leads₁ represents₁ rfl
      (fun k above => Place.outside_not.mpr above)
  | parens h child ih =>
    rw [Term.size_parens] at deep
    obtain ⟨fuel, rfl⟩ : ∃ m, fuel = m + 2 := ⟨fuel - 2, by omega⟩
    rw [Term.postorder, List.append_assoc] at behaves
    obtain ⟨w₁, walked₁, leads₁⟩ := ih (C := .parens C h) represents behaves (show _ ≤ fuel + 1 by omega)
    obtain ⟨c, represents₁⟩ := leads₁.place
    have read : w.arena.child h 0 = .ok (some child.handle) := Optimizer.child_of_represents represents 0
    exact fromSlot_last_child (t := .parens h c) read walked₁ leads₁ represents₁ rfl
      (fun k above => Place.outside_parens.mpr above)
  | id h x | literal h x =>
    obtain ⟨fuel, rfl⟩ : ∃ m, fuel = m + 1 := ⟨fuel - 1, by simp [Term.size, Term.handles] at deep; omega⟩
    rw [fromSlot_of_last (Optimizer.child_of_represents represents 0)]
    exact visit_leads represents behaves

/-! ### Walks from any node -/

theorem fromSlot_mono {σ : Type} {attempt : Visit σ} {w w' : Walk σ} {more : Nat}
    (walked : Walk.fromSlot attempt fuel h slot w = .ok w') (le : fuel ≤ more) :
    Walk.fromSlot attempt more h slot w = .ok w' := by
  induction fuel generalizing h slot w w' more with
  | zero => cases walked
  | succ fuel ih =>
    obtain ⟨more, rfl⟩ : ∃ m, more = m + 1 := ⟨more - 1, by omega⟩
    replace le : fuel ≤ more := by omega
    rw [Walk.fromSlot] at walked ⊢
    obtain ⟨child, read, walked⟩ := Checked.bind_ok walked
    rw [read]
    cases child with
    | none => exact walked
    | some child =>
      obtain ⟨w₁, below, walked⟩ := Checked.bind_ok walked
      simp only [bind, Except.bind, ih below le]
      exact ih walked le

theorem not_replaces_root (wellFormed : A.WellFormed) (root : A.variant h = .ok .root) :
    ¬ Replaces A B h top := by
  intro replaces
  obtain ⟨parent, n, slot, -, above, holds, -, -⟩ := replaces.placed
  apply (wellFormed.root_unheld root).2 parent slot
  rw [child_of_cell? (cell?_of_node above), holds]

/-- What a walk has done that visited nodes in an order, counted from its start. -/
structure Completes (attempt : Visit τ) (order : List Handle) (w : Walk (τ × List Visited)) : Prop where
  tour : Tour attempt order w.notes.2
  counted : w.replaced = w.notes.2.countP Visited.replaced

theorem Leads.completes {A : Arena} {notes : τ} (leads : Leads attempt C order later ⟨A, (notes, []), 0⟩ w') :
    Completes attempt order w' := by
  obtain ⟨log, toured, written, counted⟩ := leads.toured
  rw [List.nil_append] at written
  rw [Nat.zero_add] at counted
  rw [← written] at toured counted
  exact ⟨toured.toTour, counted⟩

theorem fromSlot_root {before after : List Tree} {root : Handle} {notes : τ}
    (represents : A.Represents ((Place.top before root after).fill t))
    (behaves : Behaves attempt (t.postorder ++ [root]) A notes) (deep : 2 * t.size + 1 ≤ fuel) :
    ∃ w', Walk.fromSlot (recording attempt) (fuel + 1) root 0 ⟨A, (notes, []), 0⟩ = .ok w' ∧
      Completes attempt (t.postorder ++ [root]) w' := by
  obtain ⟨fuel, rfl⟩ : ∃ m, fuel = m + 1 := ⟨fuel - 1, by omega⟩
  obtain ⟨w₁, walked₁, leads₁⟩ :=
    fromSlot_leads (w := ⟨A, (notes, []), 0⟩) represents behaves (show _ ≤ fuel + 1 by omega)
  obtain ⟨s, represents₁⟩ := leads₁.place
  obtain ⟨replaced, B, notes', attempted, change, -⟩ := leads₁.behaves
  have held := represents₁.holder
  have variant : w₁.arena.variant root = .ok .root := variant_of_cell? held
  obtain rfl : B = w₁.arena := by
    rcases change with same | ⟨top, replaces⟩
    · exact same
    · exact absurd replaces (not_replaces_root represents₁.wellFormed variant)
  have read₀ : A.child root 0 = .ok (some t.handle) := child_of_cell? represents.holder 0
  have read₁ : w₁.arena.child root 1 = .ok none := child_of_cell? held 1
  obtain ⟨log, toured, written, counted⟩ := leads₁.toured
  have last := tour_of_attempt attempted (isLive_of_cell? held)
  have visited : w₁.visit (recording attempt) root = .ok
      { arena := w₁.arena
        notes := (notes', w₁.notes.2 ++ [⟨root, w₁.arena, w₁.arena, replaced⟩])
        replaced := if replaced then w₁.replaced + 1 else w₁.replaced } := by
    rw [Walk.visit, recording, attempted]
    rfl
  rw [List.nil_append] at written
  rw [Nat.zero_add] at counted
  have walked := fromSlot_of_child (w := ⟨A, (notes, []), 0⟩) read₀ walked₁
  rw [fromSlot_of_last read₁, visited] at walked
  refine ⟨_, walked, ?_, ?_⟩
  · rw [written]
    apply toured.toTour.append last
    intro v member k same
    obtain rfl := List.mem_singleton.mp same
    exact toured.spares_outside v member _ (Or.inl rfl)
  · rw [written, counted, List.countP_append]
    cases replaced <;> simp

theorem postorder_term {p : Option Handle} (holds : A.Holds p t) (small : t.size < A.bound) :
    A.postorder t.handle = .ok t.postorder := by
  rw [postorder, fold_term _ holds small, Term.fold_postorder]

theorem Represents.postorder_root {trees : List Tree} {x : Tree} (represents : A.Represents trees) (tree : x ∈ trees) :
    A.postorder x.root = .ok (x.body.postorder ++ [x.root]) := by
  obtain ⟨held, holds, small⟩ := represents.tree tree
  rw [postorder, fold_root _ held holds small, Term.fold_postorder]
  simp [Shape.children]

/-! ### The path as a stack -/

/-- One turn of a walk that keeps its path on a stack: nodes with the slots from which they go on. -/
def Walk.turn (attempt : Visit τ) : List (Handle × Nat) × Walk τ → Checked (List (Handle × Nat) × Walk τ)
  | ([], w) => return ([], w)
  | ((h, slot) :: path, w) => do
    match ← w.arena.child h slot with
    | some child => return ((child, 0) :: (h, slot + 1) :: path, w)
    | none => return (path, ← w.visit attempt h)

def Walk.turns (attempt : Visit τ) :
    Nat → List (Handle × Nat) × Walk τ → Checked (List (Handle × Nat) × Walk τ)
  | 0, state => return state
  | count + 1, state => do Walk.turns attempt count (← Walk.turn attempt state)

theorem turns_add (attempt : Visit τ) (m n : Nat) (state : List (Handle × Nat) × Walk τ) :
    Walk.turns attempt (m + n) state = Walk.turns attempt m state >>= Walk.turns attempt n := by
  induction m generalizing state with
  | zero =>
    rw [Nat.zero_add]
    rfl
  | succ m ih =>
    rw [Nat.add_right_comm, Walk.turns, Walk.turns]
    cases Walk.turn attempt state with
    | error fault => rfl
    | ok next => exact ih next

/-- The turns of the stack do what the recursion does and take its frame off the stack. -/
theorem turns_of_fromSlot {w w' : Walk τ} (walked : Walk.fromSlot attempt fuel h slot w = .ok w') :
    ∃ count, ∀ path, Walk.turns attempt count ((h, slot) :: path, w) = .ok (path, w') := by
  induction fuel generalizing h slot w w' with
  | zero => cases walked
  | succ fuel ih =>
    rw [Walk.fromSlot] at walked
    obtain ⟨child, read, walked⟩ := Checked.bind_ok walked
    cases child with
    | none =>
      refine ⟨1, fun path => ?_⟩
      rw [Walk.turns, Walk.turn, read]
      simp only [bind, Except.bind, show w.visit attempt h = .ok w' from walked]
      rfl
    | some child =>
      obtain ⟨w₁, below, walked⟩ := Checked.bind_ok walked
      obtain ⟨m, down⟩ := ih below
      obtain ⟨n, across⟩ := ih walked
      refine ⟨m + n + 1, fun path => ?_⟩
      rw [Walk.turns, Walk.turn, read]
      simp only [bind, Except.bind, pure, Except.pure]
      rw [turns_add, down]
      exact across path

/-! ### Attempts that never fail -/

/-- In a well-formed arena, the attempt at a live node answers and leaves the arena alone or replaces
the node. -/
def Tame (attempt : Visit τ) : Prop := ∀ h A notes, A.WellFormed → A.isLive h = .ok true →
  ∃ replaced B notes', attempt h A notes = .ok (replaced, B, notes') ∧ (B = A ∨ ∃ top, Replaces A B h top)

theorem Tame.behaves_cons (tame : Tame attempt) (represents : A.Represents (C.fill t))
    (further : ∀ B s notes, B.Represents (Place.fill C s) → Behaves attempt later B notes) (notes : τ) :
    Behaves attempt (t.handle :: later) A notes := by
  obtain ⟨replaced, B, notes', attempted, change⟩ :=
    tame t.handle A notes represents.wellFormed (isLive_of_cell? represents.holds.top)
  refine ⟨replaced, B, notes', attempted, change, ?_⟩
  rcases change with rfl | ⟨top, replaces⟩
  · exact further B t notes' represents
  · obtain ⟨s, placed, -⟩ := represents.replaced replaces
    exact further B s notes' placed

theorem Tame.behaves (tame : Tame attempt) (represents : A.Represents (C.fill t))
    (further : ∀ B s notes, B.Represents (Place.fill C s) → Behaves attempt later B notes) (notes : τ) :
    Behaves attempt (t.postorder ++ later) A notes := by
  induction t generalizing C A later notes with
  | binary h op left right ihl ihr =>
    rw [Term.postorder, List.append_assoc, List.append_assoc]
    apply ihl (C := .left C h op right) represents
    intro B l notes represents
    apply ihr (C := .right C h op l) represents
    intro B r notes represents
    exact tame.behaves_cons (t := .binary h op l r) represents further notes
  | not h child ih =>
    rw [Term.postorder, List.append_assoc]
    apply ih (C := .not C h) represents
    intro B c notes represents
    exact tame.behaves_cons (t := .not h c) represents further notes
  | parens h child ih =>
    rw [Term.postorder, List.append_assoc]
    apply ih (C := .parens C h) represents
    intro B c notes represents
    exact tame.behaves_cons (t := .parens h c) represents further notes
  | id h x => exact tame.behaves_cons (t := .id h x) represents further notes
  | literal h x => exact tame.behaves_cons (t := .literal h x) represents further notes

/-! ### The nodes of a subtree in their order -/

/-- These are the nodes of the subtree, each once and each after its children, and a walk visits them in
this order. -/
structure Ordered (A : Arena) (start : Handle) (order : List Handle) : Prop where
  listed : A.postorder start = .ok order
  nodup : order.Nodup
  mem_iff : ∀ h, h ∈ order ↔ A.InSubtree start h
  behaves : ∀ {τ : Type} {attempt : Visit τ} (notes : τ), Tame attempt → Behaves attempt order A notes
  walks : ∀ {τ : Type} {attempt : Visit τ} {notes : τ}, Behaves attempt order A notes →
    ∃ w, (∀ steps, 2 * A.live + 2 ≤ steps → A.walkTo (recording attempt) steps start (notes, []) = .ok w) ∧
      Completes attempt order w

theorem Represents.ordered (represents : A.Represents (C.fill t)) : Ordered A t.handle t.postorder where
  listed := postorder_term represents.holds represents.size_lt_bound
  nodup := t.postorder_perm.nodup_iff.mpr represents.nodup
  mem_iff h := by rw [Term.mem_postorder, represents.holds.inSubtree_iff represents.size_lt_bound]
  behaves notes tame := by
    rw [← List.append_nil t.postorder]
    apply tame.behaves represents
    exact fun _ _ _ _ => trivial
  walks {τ attempt notes} behaves := by
    have fits := represents.size_le_live
    rw [← List.append_nil t.postorder] at behaves
    obtain ⟨w, walked, leads⟩ := fromSlot_leads (w := ⟨A, (notes, []), 0⟩) represents behaves (Nat.le_refl _)
    exact ⟨w, fun steps enough => fromSlot_mono walked (by omega), leads.completes⟩

theorem Represents.ordered_root {before after : List Tree} {root : Handle}
    (represents : A.Represents ((Place.top before root after).fill t)) :
    Ordered A root (t.postorder ++ [root]) where
  listed := represents.postorder_root (x := ⟨root, t⟩) (by simp [Place.fill])
  nodup := by
    refine List.nodup_append.mpr ⟨t.postorder_perm.nodup_iff.mpr represents.nodup, List.nodup_singleton _, ?_⟩
    intro h inside k same
    obtain rfl := List.mem_singleton.mp same
    exact (represents.inside_apart (Term.mem_postorder.mp inside)).1
  mem_iff h := by
    have subtree := represents.descendants_root (x := ⟨root, t⟩) (by simp [Place.fill])
    rw [InSubtree, subtree]
    simp [Term.mem_postorder, or_comm]
  behaves notes tame := by
    apply tame.behaves represents
    intro B s notes represents
    obtain ⟨replaced, D, notes', attempted, change⟩ :=
      tame root B notes represents.wellFormed (isLive_of_cell? represents.holder)
    exact ⟨replaced, D, notes', attempted, change, trivial⟩
  walks {τ attempt notes} behaves := by
    have fits := represents.size_le_live
    obtain ⟨w, walked, completes⟩ := fromSlot_root represents behaves (Nat.le_refl _)
    exact ⟨w, fun steps enough => fromSlot_mono walked (by omega), completes⟩

theorem WellFormed.exists_ordered {start : Handle} (wellFormed : A.WellFormed) (live : A.isLive start = .ok true) :
    ∃ order, Ordered A start order := by
  obtain ⟨trees, represents⟩ := wellFormed.exists_represents
  obtain ⟨C, t, rfl, covers⟩ := Optimizer.exists_covers represents live
  rcases covers with rfl | ⟨topmost, rfl⟩
  · exact ⟨t.postorder, represents.ordered⟩
  · cases C with
    | top before root after => exact ⟨t.postorder ++ [root], represents.ordered_root⟩
    | _ => simp [Place.grandparent] at topmost

/-- The walk ends in few steps, on a stack as by recursion, and has visited the nodes in the given order and
counted the visits that reported a replacement. -/
structure Walks (A : Arena) (attempt : Visit τ) (start : Handle) (notes : τ) (order : List Handle) (w : Walk τ)
    (log : List Visited) : Prop where
  ends : ∀ steps, 2 * A.live + 2 ≤ steps → A.walkTo attempt steps start notes = .ok w
  answers : A.walk attempt start notes = .ok w
  stacked : ∃ count, Walk.turns attempt count ([(start, 0)], ⟨A, notes, 0⟩) = .ok ([], w)
  recorded : A.walk (recording attempt) start (notes, []) = .ok ⟨w.arena, (w.notes, log), w.replaced⟩
  tour : Tour attempt order log
  counted : w.replaced = log.countP Visited.replaced

theorem live_lt_patience (A : Arena) : 2 * A.live + 2 ≤ A.patience := by
  have few : A.live < 2 ^ A.live := Nat.lt_two_pow_self
  have split : A.patience = 2 ^ A.live * 2 ^ 20 := Nat.pow_add 2 A.live 20
  omega

theorem Ordered.exists_walks {A : Arena} {start : Handle} {notes : τ} (ordered : Ordered A start order)
    (behaves : Behaves attempt order A notes) : ∃ w log, A.Walks attempt start notes order w log := by
  obtain ⟨w, ends, tour, counted⟩ := ordered.walks behaves
  have forgotten : ∀ steps, 2 * A.live + 2 ≤ steps → A.walkTo attempt steps start notes = .ok w.forget := by
    intro steps enough
    have same := fromSlot_recording attempt steps start 0 ⟨A, (notes, []), 0⟩
    rw [show Walk.fromSlot (recording attempt) steps start 0 _ = .ok w from ends steps enough] at same
    exact same.symm
  obtain ⟨count, stacked⟩ := turns_of_fromSlot (forgotten A.patience A.live_lt_patience)
  exact ⟨w.forget, w.notes.2, forgotten, forgotten _ A.live_lt_patience, ⟨count, stacked []⟩,
    ends _ A.live_lt_patience, tour, counted⟩

end Arena

end Propositional
