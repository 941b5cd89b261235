import Propositional.Proofs.Arena.Reading

/-!
# Well-formed arenas

An arena is well formed if its links agree: every node but a root hangs in one slot of one node, which
it names as its parent, the roots hang nowhere and are the listed ones, no node is above itself, and
the table is tidy. The well-formed arenas are those that represent a forest.
-/

namespace Propositional.Arena

variable {A : Arena} {h p : Handle} {n : Node} {slot : Nat}

/-- The links of the arena agree with each other and with its list of roots. A root has no parent on
either side: it names none, and no slot holds it. -/
structure WellFormed (A : Arena) : Prop where
  children_live : ∀ {p slot h}, A.child p slot = .ok (some h) → A.isLive h = .ok true
  held_once : ∀ {h}, A.isLive h = .ok true → A.variant h ≠ .ok .root →
    ∃ p slot, A.parent h = .ok (some p) ∧ A.child p slot = .ok (some h) ∧
      ∀ q s, A.child q s = .ok (some h) → q = p ∧ s = slot
  root_unheld : ∀ {h}, A.variant h = .ok .root →
    A.parent h = .ok none ∧ ∀ p slot, A.child p slot ≠ .ok (some h)
  mem_roots : ∀ h, h ∈ A.roots ↔ A.variant h = .ok .root
  acyclic : ∀ h, ¬ Relation.TransGen (fun h p => A.parent h = .ok (some p)) h h
  tidy : A.table.Tidy

def NamesParent (A : Arena) (h p : Handle) : Prop := A.parent h = .ok (some p)

theorem namesParent_of_cell? (held : A.cell? h = some n) (named : n.parent = some p) : A.NamesParent h p := by
  rw [NamesParent, parent_of_cell? held, named]

theorem finite_live (A : Arena) : Finite {h // ∃ n, A.cell? h = some n} := by
  have bounded : {h : Handle | ∃ n, A.cell? h = some n} ⊆ Handle.mk '' Set.Iic A.table.size := by
    rintro h ⟨n, held⟩
    exact ⟨h.index, (Table.inside_of_value? held).2, rfl⟩
  exact ((Set.finite_Iic A.table.size).image Handle.mk).subset bounded

/-- A relation between live nodes that leads nowhere back to where it started is well founded. -/
theorem wellFounded_of_acyclic {r : Handle → Handle → Prop} (live : ∀ {h k}, r h k → ∃ n, A.cell? h = some n)
    (acyclic : ∀ h, ¬ Relation.TransGen r h h) : WellFounded r := by
  have finite := A.finite_live
  let s : {h // ∃ n, A.cell? h = some n} → {h // ∃ n, A.cell? h = some n} → Prop :=
    fun h k => Relation.TransGen r h k
  have trans : IsTrans _ s := ⟨fun _ _ _ => Relation.TransGen.trans⟩
  have irrefl : Std.Irrefl s := ⟨fun h => acyclic h⟩
  have founded : WellFounded s := Finite.wellFounded_of_trans_of_irrefl s
  have accessible : ∀ h : {h // ∃ n, A.cell? h = some n}, Acc r h.1 := by
    intro h
    induction h using founded.induction with
    | _ h ih => exact ⟨_, fun k step => ih ⟨k, live step⟩ (Relation.TransGen.single step)⟩
  refine ⟨fun h => ⟨_, fun k step => accessible ⟨k, live step⟩⟩⟩

namespace WellFormed

theorem child_parent (wellFormed : A.WellFormed) (child : A.child p slot = .ok (some h)) :
    ∃ n, A.cell? h = some n ∧ n.shape.variant ≠ .root ∧ n.parent = some p := by
  obtain ⟨n, held⟩ := cell?_of_isLive (wellFormed.children_live child)
  have inner : A.variant h ≠ .ok .root := fun root => (wellFormed.root_unheld root).2 p slot child
  obtain ⟨q, s, named, -, once⟩ := wellFormed.held_once (isLive_of_cell? held) inner
  rw [parent_of_cell? held] at named
  refine ⟨n, held, fun root => inner (by rw [variant_of_cell? held, root]), ?_⟩
  rw [Except.ok.inj named, (once p slot child).1]

theorem slot_unique {q : Handle} {slot' : Nat} (wellFormed : A.WellFormed)
    (first : A.child p slot = .ok (some h)) (second : A.child q slot' = .ok (some h)) :
    p = q ∧ slot = slot' := by
  have inner : A.variant h ≠ .ok .root := fun root => (wellFormed.root_unheld root).2 p slot first
  obtain ⟨m, s, -, -, once⟩ := wellFormed.held_once (wellFormed.children_live first) inner
  obtain ⟨rfl, rfl⟩ := once p slot first
  obtain ⟨rfl, rfl⟩ := once q slot' second
  exact ⟨rfl, rfl⟩

theorem exists_term (wellFormed : A.WellFormed) (held : A.cell? h = some n) (inner : n.shape.variant ≠ .root) :
    ∃ t : Term, t.handle = h ∧ A.Holds n.parent t := by
  have founded : WellFounded A.NamesParent :=
    wellFounded_of_acyclic (fun named => (cell?_of_parent named).imp fun _ => And.left) wellFormed.acyclic
  induction h using founded.induction generalizing n with
  | _ h ih =>
    -- The terms of the children, which are below the node.
    have below : ∀ slot c, n.shape.child? slot = some c →
        ∃ t : Term, t.handle = c ∧ A.Holds (some h) t := by
      intro slot c child
      obtain ⟨m, heldChild, innerChild, named⟩ := wellFormed.child_parent (p := h) (h := c)
        (by rw [child_of_cell? held, child])
      obtain ⟨t, top, holds⟩ := ih c (namesParent_of_cell? heldChild named) heldChild innerChild
      exact ⟨t, top, named ▸ holds⟩
    obtain ⟨shape, parent⟩ := n
    cases shape with
    | root child => exact absurd rfl inner
    | binary op left right =>
      obtain ⟨l, rfl, holdsLeft⟩ := below 0 left rfl
      obtain ⟨r, rfl, holdsRight⟩ := below 1 right rfl
      refine ⟨.binary h op l r, rfl, .of_children held fun c child => ?_⟩
      rw [Term.children, List.mem_pair] at child
      rcases child with rfl | rfl
      · exact holdsLeft
      · exact holdsRight
    | not child =>
      obtain ⟨t, rfl, holds⟩ := below 0 child rfl
      refine ⟨.not h t, rfl, .of_children held fun c child => ?_⟩
      rwa [List.mem_singleton.mp child]
    | parens child =>
      obtain ⟨t, rfl, holds⟩ := below 0 child rfl
      refine ⟨.parens h t, rfl, .of_children held fun c child => ?_⟩
      rwa [List.mem_singleton.mp child]
    | id name => exact ⟨.id h name, rfl, .of_children held fun _ child => absurd child List.not_mem_nil⟩
    | literal value => exact ⟨.literal h value, rfl, .of_children held fun _ child => absurd child List.not_mem_nil⟩

theorem exists_trees (wellFormed : A.WellFormed) (roots : List Handle) (listed : ∀ h ∈ roots, h ∈ A.roots) :
    ∃ trees : List Tree, trees.map Tree.root = roots ∧
      ∀ x ∈ trees, A.cell? x.root = some ⟨.root x.body.handle, none⟩ ∧ A.Holds (some x.root) x.body := by
  induction roots with
  | nil => exact ⟨[], rfl, by simp⟩
  | cons h later ih =>
    obtain ⟨trees, same, each⟩ := ih (fun k member => listed k (List.mem_cons_of_mem _ member))
    have root := (wellFormed.mem_roots h).mp (listed h List.mem_cons_self)
    obtain ⟨⟨shape, parent⟩, held, variant⟩ := cell?_of_variant root
    have unheld := (wellFormed.root_unheld root).1
    rw [parent_of_cell? held] at unheld
    obtain rfl : parent = none := Except.ok.inj unheld
    cases shape with
    | root child =>
      obtain ⟨n, heldChild, inner, named⟩ := wellFormed.child_parent (p := h) (h := child)
        (child_of_cell? held 0)
      obtain ⟨t, rfl, holds⟩ := wellFormed.exists_term heldChild inner
      refine ⟨⟨h, t⟩ :: trees, by rw [List.map_cons, same], fun x member => ?_⟩
      rcases List.mem_cons.mp member with rfl | member
      · exact ⟨held, named ▸ holds⟩
      · exact each x member
    | _ => simp [Shape.variant] at variant

end WellFormed

theorem Holds.reaches_top {t : Term} {q : Option Handle} (holds : A.Holds q t) (member : h ∈ t.handles) :
    Relation.ReflTransGen A.NamesParent h t.handle := by
  induction t using Term.byChildren generalizing q with
  | step t ih =>
    rw [Term.handles_eq, List.mem_cons] at member
    rcases member with rfl | below
    · exact Relation.ReflTransGen.refl
    · obtain ⟨c, child, below⟩ := List.mem_flatMap.mp below
      have held := holds.child child
      exact (ih c child held below).tail (namesParent_of_cell? held.top rfl)

theorem namesParent_rightUnique (A : Arena) : Relator.RightUnique A.NamesParent := by
  intro h p q first second
  exact Option.some.inj (Except.ok.inj (first.symm.trans second))

namespace WellFormed

theorem eq_of_same_parent {h k q : Handle} (wellFormed : A.WellFormed) (first : A.NamesParent h q)
    (second : A.NamesParent k q) (line : Relation.ReflTransGen A.NamesParent h k) : h = k := by
  rcases Relation.ReflTransGen.cases_head line with same | ⟨m, step, rest⟩
  · exact same
  · obtain rfl := A.namesParent_rightUnique step first
    exact absurd (Relation.TransGen.tail' rest second) (wellFormed.acyclic m)

theorem eq_of_meet {h k q x : Handle} (wellFormed : A.WellFormed) (first : A.NamesParent h q)
    (second : A.NamesParent k q) (left : Relation.ReflTransGen A.NamesParent x h)
    (right : Relation.ReflTransGen A.NamesParent x k) : h = k := by
  rcases Relation.ReflTransGen.total_of_right_unique A.namesParent_rightUnique left right with line | line
  · exact wellFormed.eq_of_same_parent first second line
  · exact (wellFormed.eq_of_same_parent second first line).symm

theorem nodup_handles (wellFormed : A.WellFormed) {t : Term} {q : Option Handle} (holds : A.Holds q t) :
    t.handles.Nodup := by
  induction t using Term.byChildren generalizing q with
  | step t ih =>
    have names : ∀ c ∈ t.children, A.NamesParent c.handle t.handle :=
      fun c child => namesParent_of_cell? (holds.child child).top rfl
    rw [Term.handles_eq, List.nodup_cons, List.nodup_flatMap]
    refine ⟨?_, fun c child => ih c child (holds.child child), ?_⟩
    · intro below
      obtain ⟨c, child, below⟩ := List.mem_flatMap.mp below
      exact wellFormed.acyclic _ (Relation.TransGen.tail' ((holds.child child).reaches_top below) (names c child))
    · have apart : ∀ c ∈ t.children, ∀ c' ∈ t.children, c.handle ≠ c'.handle →
          c.handles.Disjoint c'.handles := by
        intro c child c' child' different x first second
        exact different (wellFormed.eq_of_meet (names c child) (names c' child')
          ((holds.child child).reaches_top first) ((holds.child child').reaches_top second))
      cases t with
      | binary k op left right =>
        have different : left.handle ≠ right.handle := by
          intro same
          have first : A.child k 0 = .ok (some left.handle) := child_of_cell? holds.top 0
          have second : A.child k 1 = .ok (some right.handle) := child_of_cell? holds.top 1
          exact absurd (wellFormed.slot_unique first (same ▸ second)).2 (by decide)
        have disjoint := apart left (by simp [Term.children]) right (by simp [Term.children]) different
        simpa [Term.children, Function.onFun] using disjoint
      | _ => simp [Term.children]

theorem nodup_forestCells (wellFormed : A.WellFormed) {trees : List Tree} (roots : (trees.map Tree.root).Nodup)
    (each : ∀ x ∈ trees, A.cell? x.root = some ⟨.root x.body.handle, none⟩ ∧ A.Holds (some x.root) x.body) :
    ((forestCells trees).map Prod.fst).Nodup := by
  -- All nodes of a tree are below its root, and nothing is above a root.
  have reaches : ∀ x ∈ trees, ∀ h ∈ x.cells.map Prod.fst, Relation.ReflTransGen A.NamesParent h x.root := by
    intro x member h inside
    obtain ⟨-, holds⟩ := each x member
    rw [Tree.cells, List.map_cons, Term.map_fst_cells, List.mem_cons] at inside
    rcases inside with rfl | inside
    · exact Relation.ReflTransGen.refl
    · exact (holds.reaches_top inside).tail (namesParent_of_cell? holds.top rfl)
  have topmost : ∀ x ∈ trees, ∀ p, ¬ A.NamesParent x.root p := by
    intro x member p named
    rw [NamesParent, parent_of_cell? (each x member).1] at named
    simp at named
  rw [forestCells, List.map_flatMap, List.nodup_flatMap]
  refine ⟨fun x member => ?_, ?_⟩
  · obtain ⟨-, holds⟩ := each x member
    rw [Tree.cells, List.map_cons, Term.map_fst_cells, List.nodup_cons]
    refine ⟨fun inside => ?_, wellFormed.nodup_handles holds⟩
    exact wellFormed.acyclic _
      (Relation.TransGen.tail' (holds.reaches_top inside) (namesParent_of_cell? holds.top rfl))
  · have different := List.pairwise_map.mp (List.nodup_iff_pairwise_ne.mp roots)
    refine different.imp_of_mem fun {x y} first second apart => ?_
    intro h left right
    rcases Relation.ReflTransGen.total_of_right_unique A.namesParent_rightUnique
      (reaches x first h left) (reaches y second h right) with line | line
    · rcases Relation.ReflTransGen.cases_head line with same | ⟨m, step, -⟩
      · exact apart same
      · exact topmost x first m step
    · rcases Relation.ReflTransGen.cases_head line with same | ⟨m, step, -⟩
      · exact apart same.symm
      · exact topmost y second m step

theorem mem_forestCells_of_parent {trees : List Tree} {m : Node} (child : A.child p slot = .ok (some h))
    (heldParent : A.cell? p = some m) (inside : (p, m) ∈ forestCells trees)
    (each : ∀ x ∈ trees, A.Holds (some x.root) x.body) (held : A.cell? h = some n) : (h, n) ∈ forestCells trees := by
  rw [child_of_cell? heldParent] at child
  have child := Except.ok.inj child
  obtain ⟨x, member, inside⟩ := List.mem_flatMap.mp inside
  -- The child is the top of a term with this parent.
  have found : ∃ c : Term, c.handle = h ∧ (some p, c) ∈ x.body.subterms (some x.root) := by
    rw [Tree.cells, List.mem_cons] at inside
    rcases inside with same | inside
    · obtain ⟨rfl, rfl⟩ := Prod.mk.inj same
      cases slot with
      | zero => exact ⟨x.body, Option.some.inj child, Term.self_mem_subterms _ _⟩
      | succ slot => simp [Shape.child?, Shape.children] at child
    · obtain ⟨q, s, below, rfl⟩ :=
        Term.exists_subterm_of_mem_handles (some x.root) (Term.mem_handles_of_mem_cells inside)
      have top := ((each x member).subterm below).top
      rw [heldParent] at top
      obtain rfl := Option.some.inj top
      have listed : h ∈ s.shape.children := List.mem_of_getElem? child
      rw [Term.children_shape] at listed
      obtain ⟨c, mem, rfl⟩ := List.mem_map.mp listed
      exact ⟨c, rfl, Term.subterms_trans below (Term.child_mem_subterms q mem)⟩
  obtain ⟨c, rfl, below⟩ := found
  have top := ((each x member).subterm below).top
  rw [held] at top
  obtain rfl := Option.some.inj top
  refine List.mem_flatMap.mpr ⟨x, member, List.mem_cons_of_mem _ (Term.cells_subset_of_mem_subterms below ?_)⟩
  rw [Term.cells_eq]
  exact List.mem_cons_self

theorem represents_of_trees (wellFormed : A.WellFormed) {trees : List Tree} (nodup : (trees.map Tree.root).Nodup)
    (rooted : ∀ h, h ∈ A.roots ↔ ∃ x ∈ trees, x.root = h)
    (each : ∀ x ∈ trees, A.cell? x.root = some ⟨.root x.body.handle, none⟩ ∧ A.Holds (some x.root) x.body) :
    A.Represents trees := by
  have founded : WellFounded (fun p h => A.NamesParent h p ∧ ∃ n, A.cell? p = some n) := by
    refine wellFounded_of_acyclic And.right fun h cycle => wellFormed.acyclic h ?_
    exact Relation.transGen_swap.mp (Relation.TransGen.mono (fun _ _ => And.left) _ _ cycle)
  refine ⟨⟨fun h n => ⟨fun held => ?_, fun member => ?_⟩, wellFormed.nodup_forestCells nodup each,
    wellFormed.tidy⟩, rooted⟩
  · induction h using founded.induction generalizing n with
    | _ h ih =>
      by_cases root : A.variant h = .ok .root
      · obtain ⟨x, member, rfl⟩ := (rooted h).mp ((wellFormed.mem_roots h).mpr root)
        have top := (each x member).1
        rw [held] at top
        obtain rfl := Option.some.inj top
        exact List.mem_flatMap.mpr ⟨x, member, List.mem_cons_self⟩
      · obtain ⟨p, slot, named, child, -⟩ := wellFormed.held_once (isLive_of_cell? held) root
        obtain ⟨m, heldParent, -⟩ := cell?_of_child child
        exact mem_forestCells_of_parent child heldParent (ih p ⟨named, m, heldParent⟩ m heldParent)
          (fun x member => (each x member).2) held
  · obtain ⟨x, tree, inside⟩ := List.mem_flatMap.mp member
    rw [Tree.cells, List.mem_cons] at inside
    rcases inside with same | inside
    · obtain ⟨rfl, rfl⟩ := Prod.mk.inj same
      exact (each x tree).1
    · exact (each x tree).2 _ inside

theorem exists_represents (wellFormed : A.WellFormed) : ∃ trees, A.Represents trees := by
  obtain ⟨trees, same, each⟩ := wellFormed.exists_trees A.roots.dedup (fun h member => List.mem_dedup.mp member)
  refine ⟨trees, wellFormed.represents_of_trees ?_ (fun h => ?_) each⟩
  · rw [same]
    exact List.nodup_dedup _
  · rw [← List.mem_dedup, ← same, List.mem_map]

end WellFormed

namespace Represents

variable {trees : List Tree} {C : Place} {t : Term}

theorem child_place (represents : A.Represents trees) (child : A.child p slot = .ok (some h)) :
    ∃ D u, Place.fill D u = trees ∧ u.handle = h ∧ D.parent = p ∧ D.slot = slot := by
  obtain ⟨n, held, found⟩ := cell?_of_child child
  rcases represents.locate held with ⟨x, member, rfl⟩ | ⟨C, t, rfl, rfl⟩
  · obtain ⟨before, after, rfl⟩ := List.append_of_mem member
    have top := Represents.holder (C := .top before x.root after) (t := x.body) represents
    rw [Place.parent, held] at top
    obtain rfl := Option.some.inj top
    cases slot with
    | zero => exact ⟨.top before x.root after, x.body, rfl, Option.some.inj found, rfl, rfl⟩
    | succ slot => simp [Place.shape, Shape.child?, Shape.children] at found
  · have top := represents.holds.top
    rw [held] at top
    obtain rfl := Option.some.inj top
    cases t with
    | binary k op left right =>
      rcases slot with _ | _ | slot
      · exact ⟨.left C k op right, left, rfl, Option.some.inj found, rfl, rfl⟩
      · exact ⟨.right C k op left, right, rfl, Option.some.inj found, rfl, rfl⟩
      · simp [Term.shape, Shape.child?, Shape.children] at found
    | not k inner =>
      cases slot with
      | zero => exact ⟨.not C k, inner, rfl, Option.some.inj found, rfl, rfl⟩
      | succ slot => simp [Term.shape, Shape.child?, Shape.children] at found
    | parens k inner =>
      cases slot with
      | zero => exact ⟨.parens C k, inner, rfl, Option.some.inj found, rfl, rfl⟩
      | succ slot => simp [Term.shape, Shape.child?, Shape.children] at found
    | id k name | literal k value => simp [Term.shape, Shape.child?, Shape.children] at found

theorem slot_of_child? (represents : A.Represents (C.fill t)) (child : (C.shape t.handle).child? slot = some t.handle) :
    slot = C.slot := by
  cases C with
  | left up k op sibling =>
    have swapped : A.Represents ((Place.right up k op t).fill sibling) := represents
    have different := swapped.sibling_ne
    rcases slot with _ | _ | slot <;> simp_all [Place.shape, Place.slot, Shape.child?, Shape.children]
  | right up k op sibling =>
    have different := represents.sibling_ne
    rcases slot with _ | _ | slot <;> simp_all [Place.shape, Place.slot, Shape.child?, Shape.children]
  | _ => rcases slot with _ | slot <;> simp_all [Place.shape, Place.slot, Shape.child?, Shape.children]

/-- The number of nodes below a node and itself, as the arena counts them. -/
def heft (A : Arena) (h : Handle) : Nat :=
  (A.fold (fun _ shape => shape.children.sum + 1) h).toOption.getD 0

theorem fold_size (t : Term) : t.fold (fun _ shape => shape.children.sum + 1) = t.size := by
  induction t <;> simp_all [Term.fold, Term.size, Term.handles, Shape.children]

theorem heft_place (represents : A.Represents (C.fill t)) : heft A t.handle = t.size := by
  rw [heft, fold_term _ represents.holds represents.size_lt_bound, fold_size]
  rfl

theorem heft_lt_parent (represents : A.Represents (C.fill t)) : heft A t.handle < heft A C.parent := by
  rw [represents.heft_place]
  cases C with
  | top before root after =>
    have counted := fold_root (fun _ shape => shape.children.sum + 1) (x := ⟨root, t⟩) represents.holder
      represents.holds represents.size_lt_bound
    rw [Place.parent, heft, counted, fold_size]
    simp [Except.toOption, Shape.children]
  | left up k op sibling =>
    have above := heft_place (C := up) (t := .binary k op t sibling) represents
    rw [Term.handle_binary, Term.size_binary] at above
    rw [Place.parent, above]
    omega
  | right up k op sibling =>
    have above := heft_place (C := up) (t := .binary k op sibling t) represents
    rw [Term.handle_binary, Term.size_binary] at above
    rw [Place.parent, above]
    omega
  | not up k =>
    have above := heft_place (C := up) (t := .not k t) represents
    rw [Term.handle_not, Term.size_not] at above
    rw [Place.parent, above]
    omega
  | parens up k =>
    have above := heft_place (C := up) (t := .parens k t) represents
    rw [Term.handle_parens, Term.size_parens] at above
    rw [Place.parent, above]
    omega

theorem locate_cell (represents : A.Represents trees) (held : A.cell? h = some n) :
    (n.shape.variant = .root ∧ n.parent = none ∧ ∃ x ∈ trees, x.root = h) ∨
      ∃ C t, Place.fill C t = trees ∧ t.handle = h ∧ n = ⟨t.shape, some C.parent⟩ := by
  rcases represents.locate held with ⟨x, member, rfl⟩ | ⟨C, t, rfl, rfl⟩
  · obtain ⟨before, after, rfl⟩ := List.append_of_mem member
    have top := Represents.holder (C := .top before x.root after) (t := x.body) represents
    rw [Place.parent, held] at top
    obtain rfl := Option.some.inj top
    exact Or.inl ⟨rfl, rfl, x, member, rfl⟩
  · have top := represents.holds.top
    rw [held] at top
    exact Or.inr ⟨C, t, rfl, rfl, Option.some.inj top⟩

theorem variant_ne_root (t : Term) : t.shape.variant ≠ .root := by
  cases t <;> simp [Term.shape, Shape.variant]

theorem hangs (represents : A.Represents (C.fill t)) :
    A.parent t.handle = .ok (some C.parent) ∧ A.child C.parent C.slot = .ok (some t.handle) ∧
      ∀ p slot, A.child p slot = .ok (some t.handle) → p = C.parent ∧ slot = C.slot := by
  have held := represents.holds.top
  refine ⟨parent_of_cell? held, by rw [child_of_cell? represents.holder, C.child?_shape], fun p slot child => ?_⟩
  obtain ⟨D, u, same, top, rfl, rfl⟩ := represents.child_place child
  have holds := (same ▸ represents : A.Represents (D.fill u)).holds.top
  rw [top, held] at holds
  obtain ⟨-, above⟩ := Node.mk.inj (Option.some.inj holds)
  have above : D.parent = C.parent := (Option.some.inj above).symm
  refine ⟨above, represents.slot_of_child? ?_⟩
  rw [above, child_of_cell? represents.holder] at child
  exact Except.ok.inj child

theorem root_unheld (represents : A.Represents trees) (root : A.variant h = .ok .root) :
    A.parent h = .ok none ∧ ∀ p slot, A.child p slot ≠ .ok (some h) := by
  obtain ⟨n, held, variant⟩ := cell?_of_variant root
  rcases represents.locate_cell held with ⟨-, none, -⟩ | ⟨C, t, rfl, rfl, rfl⟩
  · refine ⟨by rw [parent_of_cell? held, none], fun p slot child => ?_⟩
    obtain ⟨D, u, rfl, rfl, -, -⟩ := represents.child_place child
    have top := represents.holds.top
    rw [held] at top
    rw [Option.some.inj top] at none
    simp at none
  · exact absurd variant (variant_ne_root t)

theorem mem_roots_iff (represents : A.Represents trees) (h : Handle) : h ∈ A.roots ↔ A.variant h = .ok .root := by
  rw [represents.mem_roots]
  constructor
  · rintro ⟨x, member, rfl⟩
    obtain ⟨before, after, rfl⟩ := List.append_of_mem member
    exact variant_of_cell? (Represents.holder (C := .top before x.root after) (t := x.body) represents)
  · intro root
    obtain ⟨n, held, variant⟩ := cell?_of_variant root
    rcases represents.locate_cell held with ⟨-, -, listed⟩ | ⟨C, t, rfl, rfl, rfl⟩
    · exact listed
    · exact absurd variant (variant_ne_root t)

/-- Nodes get heavier on the way up. -/
theorem heft_lt_above (represents : A.Represents trees) (line : Relation.TransGen A.NamesParent h p) :
    heft A h < heft A p := by
  have heavier : ∀ {h p}, A.NamesParent h p → heft A h < heft A p := by
    intro h p named
    obtain ⟨n, held, above⟩ := cell?_of_parent named
    rcases represents.locate_cell held with ⟨-, none, -⟩ | ⟨C, t, rfl, rfl, rfl⟩
    · simp [none] at above
    · rw [← Option.some.inj above]
      exact represents.heft_lt_parent
  induction line with
  | single step => exact heavier step
  | tail _ step ih => exact Nat.lt_trans ih (heavier step)

theorem wellFormed (represents : A.Represents trees) : A.WellFormed where
  children_live child := by
    obtain ⟨D, u, rfl, rfl, -, -⟩ := represents.child_place child
    exact isLive_of_cell? represents.holds.top
  held_once := by
    intro h live inner
    obtain ⟨n, held⟩ := cell?_of_isLive live
    rcases represents.locate_cell held with ⟨root, -⟩ | ⟨C, t, rfl, rfl, rfl⟩
    · exact absurd (by rw [variant_of_cell? held, root]) inner
    · exact ⟨C.parent, C.slot, represents.hangs⟩
  root_unheld := represents.root_unheld
  mem_roots := represents.mem_roots_iff
  acyclic _ cycle := Nat.lt_irrefl _ (represents.heft_lt_above cycle)
  tidy := represents.owns.tidy

end Represents

/-! ### Trees of a forest -/

theorem roots_sublist (trees : List Tree) :
    (trees.map Tree.root).Sublist ((forestCells trees).map Prod.fst) := by
  induction trees with
  | nil => exact List.Sublist.refl _
  | cons x later ih =>
    rw [forestCells, List.flatMap_cons, List.map_append, Tree.cells, List.map_cons, List.map_cons]
    exact (ih.trans (List.sublist_append_right _ _)).cons_cons x.root

theorem Represents.nodup_roots {trees : List Tree} (represents : A.Represents trees) :
    (trees.map Tree.root).Nodup :=
  represents.owns.nodup.sublist (roots_sublist trees)

theorem Represents.tree {trees : List Tree} {x : Tree} (represents : A.Represents trees) (tree : x ∈ trees) :
    A.cell? x.root = some ⟨.root x.body.handle, none⟩ ∧ A.Holds (some x.root) x.body ∧ x.body.size < A.bound := by
  obtain ⟨before, after, rfl⟩ := List.append_of_mem tree
  have at_top : A.Represents ((Place.top before x.root after).fill x.body) := represents
  exact ⟨at_top.holder, at_top.holds, at_top.size_lt_bound⟩

theorem Represents.fold_root_formula {α : Type} {trees : List Tree} {x : Tree} (represents : A.Represents trees)
    (tree : x ∈ trees) (f : Shape α → α) :
    A.fold (fun _ => f) x.root = .ok (f (.root (x.body.formula.fold f))) := by
  obtain ⟨held, holds, small⟩ := represents.tree tree
  rw [fold_root (fun _ => f) held holds small, Term.fold_formula]

/-- Two roots are structurally equal if and only if the formulas below them are equal. -/
theorem Represents.structuralEqIn_root {B : Arena} {trees others : List Tree} {x y : Tree}
    (left : A.Represents trees) (first : x ∈ trees) (right : B.Represents others) (second : y ∈ others) :
    A.structuralEqIn x.root B y.root = .ok (decide (x.body.formula = y.body.formula)) := by
  obtain ⟨rootLeft, holdsLeft, small⟩ := left.tree first
  obtain ⟨rootRight, holdsRight, -⟩ := right.tree second
  have enough : A.bound ≤ A.bound * B.bound := Nat.le_mul_of_pos_right _ (Nat.succ_pos _)
  obtain ⟨depth, deep⟩ : ∃ depth, A.bound * B.bound = depth + 1 := ⟨A.bound * B.bound - 1, by omega⟩
  rw [structuralEqIn, deep, structuralEqTo, shape_of_cell? rootLeft, shape_of_cell? rootRight]
  exact structuralEqTo_term holdsLeft holdsRight (by omega)

/-! ### The formula below a node -/

def formulaShape : Shape Formula → Formula
  | .root f => f
  | .binary op left right => .binary op left right
  | .not operand => .not operand
  | .parens inner => .parens inner
  | .id name => .id name
  | .literal value => .literal value

/-- The formula of the subtree of a node; that of a root is what is below it. -/
def formula (A : Arena) : Handle → Checked Formula := A.fold fun _ => formulaShape

theorem fold_formulaShape (f : Formula) : f.fold formulaShape = f := by
  induction f <;> simp_all [Formula.fold, formulaShape]

theorem Represents.formula_root {trees : List Tree} {x : Tree} (represents : A.Represents trees)
    (tree : x ∈ trees) : A.formula x.root = .ok x.body.formula := by
  rw [formula, represents.fold_root_formula tree, fold_formulaShape]
  rfl

/-- An arena is well formed if and only if it represents a forest. -/
theorem wellFormed_iff : A.WellFormed ↔ ∃ trees, A.Represents trees :=
  ⟨WellFormed.exists_represents, fun ⟨_, represents⟩ => represents.wellFormed⟩

theorem WellFormed.exists_place (wellFormed : A.WellFormed) (attached : A.parent h = .ok (some p)) :
    ∃ C t, A.Represents (Place.fill C t) ∧ t.handle = h ∧ C.parent = p := by
  obtain ⟨trees, represents⟩ := wellFormed.exists_represents
  obtain ⟨n, held, named⟩ := cell?_of_parent attached
  rcases represents.locate_cell held with ⟨-, none, -⟩ | ⟨C, t, rfl, rfl, rfl⟩
  · rw [none] at named
    cases named
  · exact ⟨C, t, represents, rfl, Option.some.inj named⟩

/-- An arena with `x AND TRUE` below a negation below a root. -/
def negatedPair : Arena where
  table :=
    { cells := #[.holding ⟨.id "x", some ⟨3⟩⟩, .holding ⟨.literal true, some ⟨3⟩⟩,
        .holding ⟨.binary .and ⟨1⟩ ⟨2⟩, some ⟨4⟩⟩, .holding ⟨.not ⟨3⟩, some ⟨5⟩⟩, .holding ⟨.root ⟨4⟩, none⟩]
      count := 5 }
  roots := [⟨5⟩]

theorem negatedPair_wellFormed : negatedPair.WellFormed := by
  let body : Term := .not ⟨4⟩ (.binary ⟨3⟩ .and (.id ⟨1⟩ "x") (.literal ⟨2⟩ true))
  have represents : negatedPair.Represents [⟨⟨5⟩, body⟩] := by
    refine ⟨⟨?_, ?_, ?_, ?_, ?_⟩, ?_⟩
    · rintro ⟨i⟩ n
      rcases i with _ | _ | _ | _ | _ | _ | i <;>
        simp [cell?, negatedPair, Table.value?, Table.Entry.value?, forestCells, Tree.cells, body, Term.cells,
          Term.handle, eq_comm]
    · simp [forestCells, Tree.cells, body, Term.cells, Term.handle]
    · exact List.nodup_nil
    · intro i
      rcases i with _ | _ | _ | _ | _ | _ | i <;>
        simp [negatedPair, Table.free, Table.linkedFrom, Table.value?, Table.Entry.value?, Table.size]
    · rfl
    · simp [negatedPair, eq_comm]
  exact represents.wellFormed

end Propositional.Arena
