import Propositional.Proofs.Arena.Graft

/-!
# Replacing a term

Putting a draft in the place of a term, where the parts of the draft are terms inside it and apart
from each other, succeeds. The draft with new handles then stands in the place, nothing else of the
forest changes, and the new handles were vacant.
-/

namespace Propositional

namespace Term

variable {moved : List Handle} {t s : Term} {p q : Option Handle}

theorem eq_of_shared_handle {terms : List Term} {h : Handle} (apart : (terms.flatMap handles).Nodup)
    (first : t ∈ terms) (second : s ∈ terms) (left : h ∈ t.handles) (right : h ∈ s.handles) : t = s := by
  induction terms with
  | nil => simp at first
  | cons u later ih =>
    rw [List.flatMap_cons] at apart
    have disjoint := List.disjoint_of_nodup_append apart
    rcases List.mem_cons.mp first with rfl | before <;> rcases List.mem_cons.mp second with rfl | after
    · rfl
    · exact (disjoint left (List.mem_flatMap_of_mem after right)).elim
    · exact (disjoint right (List.mem_flatMap_of_mem before left)).elim
    · exact ih apart.of_append_right before after

theorem subterm_unique (nodup : t.handles.Nodup) {q' : Option Handle} {s' : Term}
    (first : (q, s) ∈ t.subterms p) (second : (q', s') ∈ t.subterms p) (same : s.handle = s'.handle) :
    q = q' ∧ s = s' := by
  induction t using byChildren generalizing p with
  | step t ih =>
    have outside : ∀ {c}, c ∈ t.children → t.handle ∉ c.handles := by
      intro c child member
      rw [handles_eq, List.nodup_cons] at nodup
      exact nodup.1 (List.mem_flatMap_of_mem child member)
    have inside : ∀ {c q s}, c ∈ t.children → (q, s) ∈ c.subterms (some t.handle) → s.handle ∈ c.handles :=
      fun _ below => handles_subset_of_mem_subterms below (handle_mem_handles _)
    rw [subterms_eq, List.mem_cons] at first second
    rcases first with top | first <;> rcases second with top' | second
    · obtain ⟨rfl, rfl⟩ := Prod.mk.inj top
      obtain ⟨rfl, rfl⟩ := Prod.mk.inj top'
      exact ⟨rfl, rfl⟩
    · obtain ⟨rfl, rfl⟩ := Prod.mk.inj top
      obtain ⟨c, child, below⟩ := List.mem_flatMap.mp second
      exact absurd (same ▸ inside child below) (outside child)
    · obtain ⟨rfl, rfl⟩ := Prod.mk.inj top'
      obtain ⟨c, child, below⟩ := List.mem_flatMap.mp first
      exact absurd (same ▸ inside child below) (outside child)
    · obtain ⟨c, child, below⟩ := List.mem_flatMap.mp first
      obtain ⟨c', child', below'⟩ := List.mem_flatMap.mp second
      rw [handles_eq, List.nodup_cons] at nodup
      obtain rfl : c = c' :=
        eq_of_shared_handle nodup.2 child child' (inside child below) (same ▸ inside child' below')
      exact ih c child ((List.nodup_flatMap.mp nodup.2).1 c child) below below'

theorem spared_subset_subterms : ∀ e ∈ t.spared moved p, e ∈ t.subterms p ∧ e.2.handle ∈ moved := by
  induction t using byChildren generalizing p with
  | step t ih =>
    intro e member
    by_cases top : t.handle ∈ moved
    · rw [spared_of_mem top, List.mem_singleton] at member
      subst member
      exact ⟨self_mem_subterms p t, top⟩
    · rw [spared_of_not_mem top] at member
      obtain ⟨c, child, below⟩ := List.mem_flatMap.mp member
      have ⟨inside, handle⟩ := ih c child e below
      exact ⟨subterms_trans (child_mem_subterms p child) inside, handle⟩

theorem mem_spared (inside : (q, s) ∈ t.subterms p) (member : s.handle ∈ moved)
    (outermost : ∀ e ∈ t.subterms p, e.2.handle ∈ moved → s.handle ∈ e.2.handles → e.2 = s) :
    (q, s) ∈ t.spared moved p := by
  induction t using byChildren generalizing p with
  | step t ih =>
    rw [subterms_eq, List.mem_cons] at inside
    by_cases top : t.handle ∈ moved
    · rw [spared_of_mem top, List.mem_singleton]
      rcases inside with same | below
      · exact same
      · obtain ⟨c, child, below⟩ := List.mem_flatMap.mp below
        have within := subterms_trans (child_mem_subterms p child) below
        have same : t = s := outermost (p, t) (self_mem_subterms p t) top
          (handles_subset_of_mem_subterms within s.handle_mem_handles)
        have small := Nat.lt_of_le_of_lt (size_le_of_mem_subterms below) (size_le_of_mem_children child)
        rw [same] at small
        omega
    · rw [spared_of_not_mem top]
      rcases inside with same | below
      · obtain ⟨rfl, rfl⟩ := Prod.mk.inj same
        exact absurd member top
      · obtain ⟨c, child, below⟩ := List.mem_flatMap.mp below
        refine List.mem_flatMap_of_mem child (ih c child below ?_)
        intro e within
        exact outermost e (subterms_trans (child_mem_subterms p child) within)

theorem spared_parent (stays : t.handle ∉ moved) :
    ∀ e ∈ t.spared moved p, ∃ h ∈ (t.residue moved p).map Prod.fst, e.1 = some h := by
  induction t using byChildren generalizing p with
  | step t ih =>
    intro e member
    rw [spared_of_not_mem stays] at member
    rw [residue_of_not_mem stays, List.map_cons]
    obtain ⟨c, child, below⟩ := List.mem_flatMap.mp member
    by_cases top : c.handle ∈ moved
    · rw [spared_of_mem top, List.mem_singleton] at below
      exact ⟨t.handle, List.mem_cons_self, by rw [below]⟩
    · obtain ⟨h, left, same⟩ := ih c child top e below
      refine ⟨h, List.mem_cons_of_mem _ ?_, same⟩
      rw [List.map_flatMap]
      exact List.mem_flatMap_of_mem child left

theorem parent_of_mem_cells {cell : Cell} (member : cell ∈ t.cells p) :
    cell = (t.handle, ⟨t.shape, p⟩) ∨ ∃ h ∈ t.handles, cell.2.parent = some h := by
  induction t using byChildren generalizing p with
  | step t ih =>
    rw [cells_eq, List.mem_cons] at member
    rcases member with top | below
    · exact Or.inl top
    · right
      obtain ⟨c, child, below⟩ := List.mem_flatMap.mp below
      rcases ih c child below with top | ⟨h, inside, same⟩
      · exact ⟨t.handle, handle_mem_handles t, by rw [top]⟩
      · refine ⟨h, ?_, same⟩
        rw [handles_eq]
        exact List.mem_cons_of_mem _ (List.mem_flatMap_of_mem child inside)

end Term

/-- The parts of the draft are inside the term and apart from each other. -/
structure Draft.Within (d : Draft Term) (t : Term) : Prop where
  inside : ∀ p, ∀ s ∈ d.parts, ∃ q, (q, s) ∈ t.subterms p
  apart : (d.parts.flatMap Term.handles).Nodup

theorem Draft.Within.nodup_parts {d : Draft Term} {t : Term} (within : d.Within t) :
    (d.parts.map Term.handle).Nodup := by
  refine List.pairwise_map.mpr ((List.nodup_flatMap.mp within.apart).2.imp ?_)
  intro s s' disjoint same
  exact disjoint s.handle_mem_handles (same ▸ s'.handle_mem_handles)

theorem Draft.Within.exists_entries {d : Draft Term} {t : Term} (within : d.Within t)
    (nodup : t.handles.Nodup) (p : Option Handle) :
    ∃ entries : List (Option Handle × Term), entries.map Prod.snd = d.parts ∧
      entries.Perm (t.spared (d.parts.map Term.handle) p) := by
  choose! q inside using within.inside p
  refine ⟨d.parts.map fun s => (q s, s), by simp [Function.comp_def], ?_⟩
  refine (List.perm_ext_iff_of_nodup ?_ ?_).mpr ?_
  · refine within.nodup_parts.of_map.map ?_
    intro s s' same
    exact (Prod.mk.inj same).2
  · have keys := ((t.cells_perm_residue (d.parts.map Term.handle) p).map Prod.fst).nodup_iff.mp
      (by rwa [Term.map_fst_cells])
    rw [List.map_append, map_fst_entryCells] at keys
    have spared := (List.nodup_flatMap.mp keys.of_append_right).2
    refine List.Nodup.of_map Prod.snd (spared.imp ?_)
    rintro s s' disjoint rfl
    exact disjoint s.handle_mem_handles s.handle_mem_handles
  · rintro ⟨r, s⟩
    rw [List.mem_map]
    constructor
    · rintro ⟨s', member, same⟩
      obtain ⟨rfl, rfl⟩ := Prod.mk.inj same
      refine Term.mem_spared (inside s' member) (List.mem_map_of_mem member) ?_
      rintro ⟨r, s⟩ below moved shared
      -- A term with the handle of a part is that part, and parts do not share handles.
      obtain ⟨part, isPart, samePart⟩ := List.mem_map.mp moved
      obtain ⟨-, rfl⟩ := Term.subterm_unique nodup (inside part isPart) below samePart
      exact Term.eq_of_shared_handle within.apart isPart member shared s'.handle_mem_handles
    · intro member
      obtain ⟨below, moved⟩ := Term.spared_subset_subterms _ member
      obtain ⟨part, isPart, samePart⟩ := List.mem_map.mp moved
      obtain ⟨rfl, rfl⟩ := Term.subterm_unique nodup (inside part isPart) below samePart
      exact ⟨part, isPart, rfl⟩

namespace Arena

variable {A B : Arena} {C : Place} {t : Term} {p : Option Handle} {moved : List Handle} {rest : List Cell}
  {depth : Nat}

/-! ### Releasing -/

theorem ownedBy_eq (h : Handle) (children : List Term)
    (named : ∀ c ∈ children, ∃ n, A.cell? c.handle = some n ∧ (n.parent = some h ↔ c.handle ∉ moved)) :
    A.ownedBy h (children.map Term.handle) =
      .ok ((children.filter (fun c => c.handle ∉ moved)).map Term.handle) := by
  induction children with
  | nil => rfl
  | cons c later ih =>
    obtain ⟨n, held, owned⟩ := named c List.mem_cons_self
    rw [List.map_cons, ownedBy, parent_of_cell? held, ih (fun c member => named c (List.mem_cons_of_mem _ member))]
    by_cases stays : c.handle ∉ moved
    · simp [bind, Except.bind, pure, Except.pure, stays, owned.mpr stays]
    · have other : n.parent ≠ some h := fun same => stays (owned.mp same)
      simp [bind, Except.bind, pure, Except.pure, stays, other]

/-- The parts of a term that were moved away are elsewhere and name other parents. -/
def Away (rest : List Cell) (entries : List (Option Handle × Term)) : Prop :=
  ∀ e ∈ entries, ∃ n, (e.2.handle, n) ∈ rest ∧ n.parent ≠ e.1

theorem Away.mono {rest' : List Cell} {entries : List (Option Handle × Term)} (away : Away rest entries)
    (more : rest ⊆ rest') : Away rest' entries := by
  intro e member
  obtain ⟨n, held, other⟩ := away e member
  exact ⟨n, more held, other⟩

theorem foldlM_release {release : Arena → Handle → Checked Arena} (terms : List Term)
    (each : ∀ t ∈ terms, ∀ A rest, A.Owns (t.residue moved p ++ rest) → Away rest (t.spared moved p) →
      ∃ B, release A t.handle = .ok B ∧ B.Owns rest ∧ B.roots = A.roots)
    (owns : A.Owns (terms.flatMap (Term.residue moved p) ++ rest))
    (away : ∀ t ∈ terms, Away rest (t.spared moved p)) :
    ∃ B, (terms.map Term.handle).foldlM release A = .ok B ∧ B.Owns rest ∧ B.roots = A.roots := by
  induction terms generalizing A with
  | nil => exact ⟨A, rfl, owns, rfl⟩
  | cons t later ih =>
    rw [List.flatMap_cons, List.append_assoc] at owns
    obtain ⟨B, first, owned, roots⟩ := each t List.mem_cons_self A _ owns
      ((away t List.mem_cons_self).mono (List.subset_append_right _ _))
    obtain ⟨E, others, owned, roots'⟩ := ih (fun t member => each t (List.mem_cons_of_mem _ member)) owned
      (fun t member => away t (List.mem_cons_of_mem _ member))
    refine ⟨E, ?_, owned, roots'.trans roots⟩
    rw [List.map_cons, List.foldlM_cons, first]
    exact others

theorem flatMap_residue_filter (moved : List Handle) (p : Option Handle) (terms : List Term) :
    (terms.filter (fun c => c.handle ∉ moved)).flatMap (Term.residue moved p) =
      terms.flatMap (Term.residue moved p) := by
  induction terms with
  | nil => rfl
  | cons c later ih =>
    by_cases member : c.handle ∈ moved
    · simp [member, Term.residue_of_mem member, ← ih]
    · simp [member, ← ih]

/-- Of the children of a node, those that were moved away no longer name it as their parent. -/
theorem ownedBy_children (owns : A.Owns (t.children.flatMap (Term.residue moved (some t.handle)) ++ rest))
    (away : ∀ c ∈ t.children, Away rest (c.spared moved (some t.handle))) :
    A.ownedBy t.handle (t.children.map Term.handle) =
      .ok ((t.children.filter (fun c => c.handle ∉ moved)).map Term.handle) := by
  refine ownedBy_eq t.handle t.children ?_
  intro c child
  by_cases gone : c.handle ∈ moved
  · obtain ⟨n, held, other⟩ := away c child (some t.handle, c)
      (by rw [Term.spared_of_mem gone]; exact List.mem_cons_self)
    exact ⟨n, owns.cell? (List.mem_append_right _ held), by simp [gone, other]⟩
  · refine ⟨⟨c.shape, some t.handle⟩, owns.cell? (List.mem_append_left _ ?_), by simp [gone]⟩
    refine List.mem_flatMap_of_mem child ?_
    rw [Term.residue_of_not_mem gone]
    exact List.mem_cons_self

theorem length_residue_le {c : Term} (child : c ∈ t.children) (moved : List Handle) (p : Option Handle) :
    (c.residue moved p).length ≤ (t.children.flatMap (Term.residue moved p)).length := by
  rw [List.flatMap_def]
  exact (List.sublist_flatten_of_mem (List.mem_map_of_mem child)).length_le

/-- A term is given up down to the parts that were moved away. -/
theorem releaseTo_ok (stays : t.handle ∉ moved) (owns : A.Owns (t.residue moved p ++ rest))
    (away : Away rest (t.spared moved p)) (deep : (t.residue moved p).length ≤ depth) :
    ∃ B, releaseTo depth A t.handle = .ok B ∧ B.Owns rest ∧ B.roots = A.roots := by
  induction t using Term.byChildren generalizing A p rest depth with
  | step t ih =>
    rw [Term.residue_of_not_mem stays, List.length_cons] at deep
    rw [Term.residue_of_not_mem stays, List.cons_append] at owns
    rw [Term.spared_of_not_mem stays] at away
    cases depth with
    | zero => omega
    | succ depth =>
      obtain ⟨A', taken, owned, roots, -⟩ := owns.take
      have childAway : ∀ c ∈ t.children, Away rest (c.spared moved (some t.handle)) :=
        fun c child e member => away e (List.mem_flatMap_of_mem child member)
      have remaining := ownedBy_children owned childAway
      have kept : (t.children.flatMap (Term.residue moved (some t.handle)) ++ rest).Perm
          ((t.children.filter (fun c => c.handle ∉ moved)).reverse.flatMap
            (Term.residue moved (some t.handle)) ++ rest) := by
        rw [← flatMap_residue_filter]
        exact ((List.reverse_perm _).symm.flatMap_right _).append_right _
      have each : ∀ c ∈ (t.children.filter (fun c => c.handle ∉ moved)).reverse, ∀ A rest,
          A.Owns (c.residue moved (some t.handle) ++ rest) → Away rest (c.spared moved (some t.handle)) →
          ∃ B, releaseTo depth A c.handle = .ok B ∧ B.Owns rest ∧ B.roots = A.roots := by
        intro c member A rest owns away
        rw [List.mem_reverse, List.mem_filter] at member
        refine ih c member.1 (by simpa using member.2) owns away ?_
        have part := length_residue_le member.1 moved (some t.handle)
        omega
      obtain ⟨B, released, owned, roots'⟩ := foldlM_release _ each (owned.perm kept) (by
        intro c member
        rw [List.mem_reverse, List.mem_filter] at member
        exact childAway c member.1)
      refine ⟨B, ?_, owned, roots'.trans roots⟩
      rw [releaseTo, taken]
      simp only [bind, Except.bind, Term.children_shape, remaining, ← List.map_reverse]
      exact released

/-! ### Replacing -/

namespace Represents

theorem parentOf (represents : A.Represents (C.fill t)) : A.parentOf t.handle = .ok C.parent := by
  rw [Arena.parentOf, parent_of_cell? represents.holds.top]
  rfl

theorem slotOf (represents : A.Represents (C.fill t)) : A.slotOf C.parent t.handle = .ok C.slot := by
  rw [Arena.slotOf, shape_of_cell? represents.holder]
  cases C with
  | right up h op sibling =>
    have different := represents.sibling_ne
    simp [Place.shape, Place.slot, different, bind, Except.bind, pure, Except.pure]
  | _ => simp [Place.shape, Place.slot, bind, Except.bind, pure, Except.pure]

end Represents

theorem setChild_place {s : Term} {h : Handle}
    (owns : A.Owns (C.holder h :: (s.cells p ++ rest))) :
    ∃ B, A.setChild C.parent C.slot s.handle = .ok B ∧
      B.Owns (C.holder s.handle :: (s.cells (some C.parent) ++ rest)) ∧ B.roots = A.roots := by
  have held : A.cell? C.parent = some ⟨C.shape h, C.grandparent⟩ := owns.cell? List.mem_cons_self
  obtain ⟨A', written, owned, roots⟩ := owns.setNode ⟨C.shape s.handle, C.grandparent⟩
  obtain ⟨B, adopted, owned, roots'⟩ := (owned.perm List.perm_middle.symm).setParent_term (some C.parent)
  refine ⟨B, ?_, owned.perm List.perm_middle, roots'.trans roots⟩
  rw [setChild, node_of_cell? held]
  simp only [bind, Except.bind, Place.setChild?_shape]
  have written : A.setNode C.parent ⟨C.shape s.handle, C.grandparent⟩ = .ok A' := written
  rw [written]
  exact adopted

theorem cells_perm_entries {entries : List (Option Handle × Term)} (cell : Cell)
    (perm : entries.Perm (t.spared moved p)) :
    (cell :: (t.cells p ++ rest)).Perm (entryCells entries ++ (t.residue moved p ++ cell :: rest)) := by
  have split := t.cells_perm_residue moved p
  have same : (entryCells entries).Perm (entryCells (t.spared moved p)) := perm.flatMap_right _
  rw [List.perm_iff_count] at split same ⊢
  intro c
  have splitCount := split c
  have sameCount := same c
  simp only [List.count_append, List.count_cons] at splitCount ⊢
  omega

theorem vacant_of_graft {d : Draft Term} {s : Term} {fresh : List Handle} {q : Option Handle}
    {entries : List (Option Handle × Term)} (parts : entries.map Prod.snd = d.parts)
    (owns : A.Owns (entryCells entries ++ rest)) (builds : d.Builds fresh s)
    (owned : B.Owns (s.cells q ++ rest)) : ∀ h ∈ fresh, A.cell? h = none := by
  have nodup := owned.nodup
  rw [List.map_append, Term.map_fst_cells,
    ((builds.handles_perm).append_right (rest.map Prod.fst)).nodup_iff, List.append_assoc] at nodup
  have disjoint := List.disjoint_of_nodup_append nodup
  intro h member
  by_contra held
  obtain ⟨n, held⟩ := Option.ne_none_iff_exists'.mp held
  have key := List.mem_map_of_mem (f := Prod.fst) ((owns.cell?_iff h n).mp held)
  rw [List.map_append, map_fst_entryCells, parts] at key
  exact disjoint member key

section Replace

variable {d : Draft Term} {s : Term} {fresh : List Handle}

theorem part_mem_handles (builds : d.Builds fresh s) {h : Handle} (part : h ∈ d.parts.map Term.handle)
    (p : Option Handle) : ∃ n, (h, n) ∈ s.cells p := by
  obtain ⟨u, member, rfl⟩ := List.mem_map.mp part
  have inside : u.handle ∈ (s.cells p).map Prod.fst := by
    rw [Term.map_fst_cells]
    exact builds.handles_perm.mem_iff.mpr
      (List.mem_append_right _ (List.mem_flatMap_of_mem member u.handle_mem_handles))
  obtain ⟨⟨_, n⟩, cell, same⟩ := List.mem_map.mp inside
  exact ⟨n, same ▸ cell⟩

theorem Represents.top_ne (represents : A.Represents (C.fill t)) (within : d.Within t)
    (changes : d ≠ .moved t) (builds : d.Builds fresh s) (vacant : ∀ h ∈ fresh, A.cell? h = none) :
    s.handle ≠ t.handle := by
  intro same
  cases alone : d.isMoved with
  | false =>
    have none := vacant _ (builds.top_mem_fresh alone)
    rw [same, represents.holds.top] at none
    simp at none
  | true =>
    cases builds with
    | moved u =>
      obtain ⟨r, inside⟩ := within.inside (some C.parent) s (by simp [Draft.parts])
      obtain ⟨-, rfl⟩ := Term.subterm_unique represents.nodup inside (t.self_mem_subterms _) same
      exact changes rfl
    | _ => simp [Draft.isMoved] at alone

theorem away_of_builds (builds : d.Builds fresh s) (stays : t.handle ∉ d.parts.map Term.handle)
    (nodup : ((C.holder s.handle :: (s.cells (some C.parent) ++
      (t.residue (d.parts.map Term.handle) (some C.parent) ++ C.outer))).map Prod.fst).Nodup) :
    Away (C.holder s.handle :: (s.cells (some C.parent) ++ C.outer))
      (t.spared (d.parts.map Term.handle) (some C.parent)) := by
  rw [List.map_cons, List.nodup_cons, List.map_append, Term.map_fst_cells, List.map_append] at nodup
  intro e member
  obtain ⟨h, left, above⟩ := Term.spared_parent stays e member
  obtain ⟨n, placed⟩ := part_mem_handles builds (Term.spared_subset_subterms e member).2 (some C.parent)
  refine ⟨n, List.mem_cons_of_mem _ (List.mem_append_left _ placed), ?_⟩
  rw [above]
  rcases Term.parent_of_mem_cells placed with top | ⟨k, inside, named⟩
  · obtain ⟨-, rfl⟩ := Prod.mk.inj top
    intro equal
    obtain rfl := Option.some.inj equal
    exact nodup.1 (List.mem_append_right _ (List.mem_append_left _ left))
  · intro equal
    obtain rfl := Option.some.inj (named.symm.trans equal)
    exact List.disjoint_of_nodup_append nodup.2 inside (List.mem_append_left _ left)

theorem release_residue (builds : d.Builds fresh s) (new : s.handle ≠ t.handle)
    (owns : A.Owns (C.holder s.handle :: (s.cells (some C.parent) ++
      (t.residue (d.parts.map Term.handle) (some C.parent) ++ C.outer)))) :
    ∃ B, (do if (← A.parent t.handle) = some C.parent then return (fresh, ← A.release t.handle)
             else return (fresh, A) : Checked (List Handle × Arena)) = .ok (fresh, B) ∧
      B.Owns (C.holder s.handle :: (s.cells (some C.parent) ++ C.outer)) ∧ B.roots = A.roots := by
  by_cases adopted : t.handle ∈ d.parts.map Term.handle
  · -- The term itself is a part: nothing is left of it, and its parent is a new node.
    obtain ⟨n, member⟩ := part_mem_handles builds adopted (some C.parent)
    have held := owns.cell? (List.mem_cons_of_mem _ (List.mem_append_left _ member))
    have other : n.parent ≠ some C.parent := by
      have nodup := owns.nodup
      rw [List.map_cons, List.nodup_cons, List.map_append, Term.map_fst_cells] at nodup
      rcases Term.parent_of_mem_cells member with top | ⟨h, inside, same⟩
      · exact absurd (Prod.mk.inj top).1.symm new
      · intro equal
        obtain rfl : h = C.parent := Option.some.inj (same.symm.trans equal)
        exact nodup.1 (List.mem_append_left _ inside)
    rw [Term.residue_of_mem adopted, List.nil_append] at owns
    refine ⟨A, ?_, owns, rfl⟩
    rw [parent_of_cell? held]
    simp [bind, Except.bind, pure, Except.pure, other]
  · have away := away_of_builds builds adopted owns.nodup
    have fits := owns.live_eq.2
    simp only [List.length_cons, List.length_append] at fits
    have top : A.cell? t.handle = some ⟨t.shape, some C.parent⟩ := by
      refine owns.cell? (List.mem_cons_of_mem _ (List.mem_append_right _ (List.mem_append_left _ ?_)))
      rw [Term.residue_of_not_mem adopted]
      exact List.mem_cons_self
    have owns : A.Owns (t.residue (d.parts.map Term.handle) (some C.parent) ++
        C.holder s.handle :: (s.cells (some C.parent) ++ C.outer)) := by
      refine owns.perm ?_
      rw [List.perm_iff_count]
      intro cell
      simp only [List.count_append, List.count_cons]
      omega
    obtain ⟨B, released, owned, roots⟩ := releaseTo_ok adopted owns away (show _ ≤ A.bound by unfold bound; omega)
    refine ⟨B, ?_, owned, roots⟩
    rw [parent_of_cell? top]
    have released : A.release t.handle = .ok B := released
    simp [bind, Except.bind, pure, Except.pure, released]

/-- A draft of other parts takes the place of a term, and nothing else changes. -/
theorem Represents.substitute (represents : A.Represents (C.fill t)) (within : d.Within t)
    (changes : d ≠ .moved t) :
    ∃ s fresh B, A.substitute t.handle d.candidate = .ok (fresh, B) ∧ d.Builds fresh s ∧
      B.Represents (C.fill s) ∧ B.roots = A.roots ∧ ∀ h ∈ fresh, A.cell? h = none := by
  obtain ⟨entries, parts, perm⟩ := within.exists_entries represents.nodup (some C.parent)
  have owns := represents.owns_at.perm (cells_perm_entries (C.holder t.handle) perm)
  obtain ⟨s, fresh, q, A₁, grafted, builds, owned, roots₁, -⟩ := graft_ok parts owns
  have vacant := vacant_of_graft parts owns builds owned
  have new := represents.top_ne within changes builds vacant
  have owned : A₁.Owns (C.holder t.handle ::
      (s.cells q ++ (t.residue (d.parts.map Term.handle) (some C.parent) ++ C.outer))) := by
    refine owned.perm ?_
    rw [← List.append_assoc, ← List.append_assoc]
    exact List.perm_middle
  obtain ⟨A₂, placed, owned, roots₂⟩ := setChild_place owned
  obtain ⟨B, released, owned, roots₃⟩ := release_residue builds new owned
  have roots := roots₃.trans (roots₂.trans roots₁)
  refine ⟨s, fresh, B, ?_, builds, represents.refill owned roots, roots, vacant⟩
  rw [Arena.substitute, represents.parentOf]
  simp only [bind, Except.bind, represents.slotOf, grafted, new, if_false, placed]
  exact released

end Replace

end Arena

end Propositional
