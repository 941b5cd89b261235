import Propositional.Proofs.Arena.Intact
import Propositional.Proofs.Arena.Rearrangement

/-!
# Looking at a subtree

What is listed for the nodes of a subtree is listed in pre-order, and a loop that keeps the nodes still to
come on a stack lists the same. From the list the nodes are counted and the names collected. The value of
the subtree depends on these names only, so a truth table over them has the value under every assignment.
-/

namespace Propositional

theorem Formula.eval_congr {σ τ : String → Bool} {f : Formula}
    (agree : ∀ name ∈ f.occurrences, σ name = τ name) : f.eval σ = f.eval τ := by
  induction f with
  | binary op left right ihl ihr =>
    rw [eval, eval, ihl fun name occurs => agree name (List.mem_append_left _ occurs),
      ihr fun name occurs => agree name (List.mem_append_right _ occurs)]
  | not operand ih => rw [eval, eval, ih agree]
  | parens inner ih => exact ih agree
  | id name => exact agree name List.mem_cons_self
  | literal value => rfl

theorem Shape.mem_nameList {α : Type} {s : Shape α} {name : String} :
    name ∈ s.skeleton.nameList ↔ s = .id name := by
  cases s <;> simp [skeleton, nameList, eq_comm]

namespace Arena

/-! ### Names -/

section Names

variable {name other : String} {names occurrences : List String}

theorem mem_insertName : other ∈ insertName name names ↔ other = name ∨ other ∈ names := by
  induction names with
  | nil => simp [insertName]
  | cons first later ih =>
    rw [insertName]
    split
    · exact List.mem_cons
    · split
      · rename_i same
        simp [same]
      · rw [List.mem_cons, List.mem_cons, ih]
        exact or_left_comm

theorem sorted_insertName (sorted : names.Pairwise (· < ·)) : (insertName name names).Pairwise (· < ·) := by
  induction names with
  | nil => exact List.pairwise_singleton _ _
  | cons first later ih =>
    obtain ⟨least, rest⟩ := List.pairwise_cons.mp sorted
    rw [insertName]
    split
    · rename_i less
      refine List.pairwise_cons.mpr ⟨fun other member => ?_, sorted⟩
      rcases List.mem_cons.mp member with rfl | member
      · exact less
      · exact lt_trans less (least other member)
    · split
      · exact sorted
      · rename_i notLess different
        refine List.pairwise_cons.mpr ⟨fun other member => ?_, ih rest⟩
        rcases mem_insertName.mp member with rfl | member
        · exact lt_of_le_of_ne (not_lt.mp notLess) (Ne.symm different)
        · exact least other member

theorem mem_insertNames :
    other ∈ occurrences.foldl (fun names name => insertName name names) names ↔
      other ∈ occurrences ∨ other ∈ names := by
  induction occurrences generalizing names with
  | nil => simp
  | cons name later ih =>
    rw [List.foldl_cons, ih, mem_insertName, List.mem_cons]
    exact or_left_comm.trans or_assoc.symm

theorem sorted_insertNames (sorted : names.Pairwise (· < ·)) :
    (occurrences.foldl (fun names name => insertName name names) names).Pairwise (· < ·) := by
  induction occurrences generalizing names with
  | nil => exact sorted
  | cons name later ih => exact ih (sorted_insertName sorted)

/-- The row of a truth table over some names that belongs to an assignment. -/
def row (names : List String) (σ : String → Bool) : Nat := Nat.ofBits fun i : Fin names.length => σ (names.get i)

theorem maskAssignment_row (σ : String → Bool) (member : name ∈ names) :
    maskAssignment names (row names σ) name = σ name := by
  rw [maskAssignment]
  cases found : names.idxOf? name with
  | none => exact absurd member (List.idxOf?_eq_none_iff.mp found)
  | some i =>
    obtain ⟨inside, same, -⟩ := List.idxOf?_eq_some_iff.mp found
    exact (Nat.testBit_ofBits_lt _ i inside).trans (congrArg σ same)

end Names

/-! ### Pre-order -/

variable {α : Type} {A : Arena} {h : Handle} {n : Node} {t : Term} {p : Option Handle} {trees : List Tree}
  {cells : List Cell} {below others : List Handle}

/-- The list has the nodes of the subtree: the node, then those below its children from left to right. -/
inductive Preorder (A : Arena) : Handle → List Handle → Prop
  | leaf {h : Handle} (read : A.children h = .ok []) : Preorder A h [h]
  | one {h child : Handle} {below : List Handle} (read : A.children h = .ok [child])
      (listed : Preorder A child below) : Preorder A h (h :: below)
  | two {h left right : Handle} {first second : List Handle} (read : A.children h = .ok [left, right])
      (listed : Preorder A left first) (listed' : Preorder A right second) :
      Preorder A h (h :: (first ++ second))

theorem Preorder.unique (first : A.Preorder h below) (second : A.Preorder h others) : below = others := by
  induction first generalizing others with
  | leaf read =>
    cases second with
    | leaf => rfl
    | one read' | two read' => cases read.symm.trans read'
  | one read listed ih =>
    cases second with
    | one read' listed' =>
      cases read.symm.trans read'
      rw [ih listed']
    | leaf read' | two read' => cases read.symm.trans read'
  | two read left right ihl ihr =>
    cases second with
    | two read' left' right' =>
      cases read.symm.trans read'
      rw [ihl left', ihr right']
    | leaf read' | one read' => cases read.symm.trans read'

theorem Holds.preorder (holds : A.Holds p t) : A.Preorder t.handle t.handles := by
  have read := children_of_cell? holds.top
  induction t generalizing p with
  | binary h op left right ihl ihr =>
    have first := holds.child (c := left) (by simp [Term.children])
    have second := holds.child (c := right) (by simp [Term.children])
    exact .two read (ihl first (children_of_cell? first.top)) (ihr second (children_of_cell? second.top))
  | not h child ih | parens h child ih =>
    have only := holds.child (c := child) (by simp [Term.children])
    exact .one read (ih only (children_of_cell? only.top))
  | id h name | literal h value => exact .leaf read

/-! ### Lists for subtrees -/

/-- The items that `f` gives for some cells. -/
def itemsOf (f : Handle → Shape Unit → List α) (cells : List Cell) : List α :=
  cells.flatMap fun cell => f cell.1 cell.2.shape.skeleton

theorem fold_collectShape (f : Handle → Shape Unit → List α) (p : Option Handle) (t : Term) (others : List α) :
    t.fold (collectShape f) others = itemsOf f (t.cells p) ++ others := by
  induction t generalizing p others with
  | binary h op left right ihl ihr =>
    calc (Term.binary h op left right).fold (collectShape f) others
      _ = f h (.binary op () ()) ++ left.fold (collectShape f) (right.fold (collectShape f) others) := rfl
      _ = _ := by
        rw [ihr (some h), ihl (some h)]
        simp [itemsOf, Term.cells, Shape.skeleton]
  | not h child ih | parens h child ih =>
    rw [Term.cells, itemsOf, List.flatMap_cons, List.append_assoc]
    exact congrArg _ (ih (some h) others)
  | id h name | literal h value => simp [Term.fold, collectShape, Shape.children, itemsOf, Term.cells, Shape.skeleton]

/-- Lists something for the nodes below those on a stack, in a given number of turns. Each turn takes the
node at the top off the stack and puts its children there. -/
def collectFrom (A : Arena) (f : Handle → Shape Unit → List α) : Nat → List Handle → Checked (List α)
  | _, [] => return []
  | 0, _ :: _ => throw .endless
  | turns + 1, h :: stack => do
    let shape ← A.shape h
    return f h shape.skeleton ++ (← A.collectFrom f turns (shape.children ++ stack))

theorem collectFrom_cell (f : Handle → Shape Unit → List α) (held : A.cell? h = some n) (turns : Nat)
    (stack : List Handle) :
    A.collectFrom f (turns + 1) (h :: stack) =
      (A.collectFrom f turns (n.shape.children ++ stack)).map (f h n.shape.skeleton ++ ·) := by
  rw [collectFrom, shape_of_cell? held]
  simp only [bind, Except.bind]
  cases A.collectFrom f turns (n.shape.children ++ stack) <;> rfl

/-- When a term has been at the top of the stack, its items are listed and the stack is what was below it. -/
theorem Holds.collectFrom (holds : A.Holds p t) (f : Handle → Shape Unit → List α) (turns : Nat)
    (stack : List Handle) :
    A.collectFrom f (turns + t.size) (t.handle :: stack) =
      (A.collectFrom f turns stack).map (itemsOf f (t.cells p) ++ ·) := by
  induction t generalizing p turns stack with
  | binary h op left right ihl ihr =>
    have enough : turns + (Term.binary h op left right).size = turns + right.size + left.size + 1 := by
      rw [Term.size_binary]
      omega
    rw [enough]
    refine (collectFrom_cell f holds.top _ _).trans ?_
    -- The right child is what the left one stands on, so each hypothesis takes one of them off.
    change (A.collectFrom f _ (left.handle :: right.handle :: stack)).map _ = _
    rw [ihl (holds.child (by simp [Term.children])), ihr (holds.child (by simp [Term.children]))]
    cases A.collectFrom f turns stack <;> simp [Except.map, itemsOf, Term.cells, Term.shape]
  | not h child ih | parens h child ih =>
    rw [Term.size, Term.handles, List.length_cons, ← Nat.add_assoc]
    refine (collectFrom_cell f holds.top _ _).trans ?_
    change (A.collectFrom f (turns + child.size) (child.handle :: stack)).map _ = _
    rw [ih (holds.child (by simp [Term.children]))]
    cases A.collectFrom f turns stack <;> simp [Except.map, itemsOf, Term.cells, Term.shape]
  | id h name | literal h value =>
    refine (collectFrom_cell f holds.top _ _).trans ?_
    change (A.collectFrom f turns stack).map _ = _
    simp [itemsOf, Term.cells, Term.shape]

/-- The cells of a subtree in pre-order: what is listed for its nodes is listed from them, by the recursion
and by the loop with a stack. -/
structure Spans (A : Arena) (h : Handle) (cells : List Cell) : Prop where
  held : ∀ cell ∈ cells, A.cell? cell.1 = some cell.2
  nodup : (cells.map Prod.fst).Nodup
  preorder : A.Preorder h (cells.map Prod.fst)
  collected : ∀ {α : Type} (f : Handle → Shape Unit → List α), A.collect f h = .ok (itemsOf f cells)
  stacked : ∀ {α : Type} (f : Handle → Shape Unit → List α) (turns : Nat), A.live ≤ turns →
    A.collectFrom f turns [h] = .ok (itemsOf f cells)

namespace Represents

theorem nodup_holder {C : Place} (represents : A.Represents (C.fill t)) : (C.parent :: t.handles).Nodup := by
  have nodup := represents.owns_at.nodup
  rw [List.map_cons, List.map_append, Term.map_fst_cells, ← List.cons_append] at nodup
  exact nodup.of_append_left

theorem size_lt_live {C : Place} (represents : A.Represents (C.fill t)) : t.size < A.live := by
  rw [represents.owns_at.live_eq.1, List.length_cons, List.length_append, ← List.length_map (f := Prod.fst),
    Term.map_fst_cells, Term.size]
  omega

/-- The cell of a root stands in front of those of the term below it. -/
theorem spans_root {x : Tree} (represents : A.Represents trees) (tree : x ∈ trees) : A.Spans x.root x.cells := by
  obtain ⟨before, after, rfl⟩ := List.append_of_mem tree
  have at_top : A.Represents ((Place.top before x.root after).fill x.body) := represents
  obtain ⟨rooted, holds, small⟩ := represents.tree tree
  refine ⟨fun cell member => ?_, ?_, ?_, fun f => ?_, fun f turns enough => ?_⟩
  · rcases List.mem_cons.mp member with rfl | member
    · exact rooted
    · exact holds cell member
  · rw [Tree.cells, List.map_cons, Term.map_fst_cells]
    exact at_top.nodup_holder
  · rw [Tree.cells, List.map_cons, Term.map_fst_cells]
    exact .one (children_of_cell? rooted) holds.preorder
  · have listed := fold_collectShape f (some x.root) x.body []
    rw [List.append_nil] at listed
    rw [collect, fold_root (collectShape f) rooted holds small]
    exact congrArg (fun items => Except.ok (f x.root (.root ()) ++ items)) listed
  · have large := at_top.size_lt_live
    obtain ⟨spare, rfl⟩ : ∃ spare, turns = spare + x.body.size + 1 := ⟨turns - x.body.size - 1, by omega⟩
    rw [collectFrom_cell f rooted]
    change (A.collectFrom f _ [x.body.handle]).map _ = _
    rw [holds.collectFrom, Arena.collectFrom]
    simp [pure, Except.pure, Except.map, itemsOf, Tree.cells]

theorem spans_place {C : Place} (represents : A.Represents (C.fill t)) :
    A.Spans t.handle (t.cells (some C.parent)) := by
  refine ⟨represents.holds, ?_, ?_, fun f => ?_, fun f turns enough => ?_⟩
  · rw [Term.map_fst_cells]
    exact represents.nodup
  · rw [Term.map_fst_cells]
    exact represents.holds.preorder
  · have listed := fold_collectShape f (some C.parent) t []
    rw [List.append_nil] at listed
    rw [collect, fold_term (collectShape f) represents.holds represents.size_lt_bound]
    exact congrArg Except.ok listed
  · have large := represents.size_le_live
    obtain ⟨spare, rfl⟩ : ∃ spare, turns = spare + t.size := ⟨turns - t.size, by omega⟩
    rw [represents.holds.collectFrom, Arena.collectFrom]
    simp [pure, Except.pure, Except.map]

theorem exists_spans (represents : A.Represents trees) (live : A.isLive h = .ok true) :
    ∃ cells, A.Spans h cells := by
  obtain ⟨n, held⟩ := cell?_of_isLive live
  rcases represents.locate_cell held with ⟨-, -, x, tree, rfl⟩ | ⟨C, t, rfl, rfl, -⟩
  · exact ⟨x.cells, represents.spans_root tree⟩
  · exact ⟨_, represents.spans_place⟩

end Represents

namespace Spans

theorem descendants (spans : A.Spans h cells) : A.descendants h = .ok (cells.map Prod.fst) := by
  rw [Arena.descendants, spans.collected, itemsOf, List.map_eq_flatMap]

theorem size (spans : A.Spans h cells) : A.size h = .ok cells.length := by
  rw [Arena.size, spans.descendants]
  exact congrArg Except.ok (List.length_map _)

theorem occurrences (spans : A.Spans h cells) : A.occurrences h = .ok (itemsOf (fun _ => Shape.nameList) cells) :=
  spans.collected fun _ => Shape.nameList

theorem mem_names_iff (spans : A.Spans h cells) {name : String} :
    name ∈ itemsOf (fun _ => Shape.nameList) cells ↔ ∃ k ∈ cells.map Prod.fst, A.shape k = .ok (.id name) := by
  rw [itemsOf, List.mem_flatMap]
  constructor
  · rintro ⟨⟨k, n⟩, member, named⟩
    refine ⟨k, List.mem_map_of_mem member, ?_⟩
    rw [shape_of_cell? (spans.held _ member), Shape.mem_nameList.mp named]
  · rintro ⟨k, member, read⟩
    obtain ⟨cell, inside, rfl⟩ := List.mem_map.mp member
    rw [shape_of_cell? (spans.held cell inside)] at read
    exact ⟨cell, inside, Shape.mem_nameList.mpr (Except.ok.inj read)⟩

end Spans

/-! ### The whole view -/

/-- The loop with a stack lists what the recursion lists. -/
theorem Represents.collectFrom_eq {turns : Nat} (represents : A.Represents trees) (live : A.isLive h = .ok true)
    (f : Handle → Shape Unit → List α) (enough : A.live ≤ turns) : A.collectFrom f turns [h] = A.collect f h := by
  obtain ⟨cells, spans⟩ := represents.exists_spans live
  rw [spans.stacked f turns enough, spans.collected]

theorem Represents.size_preorder (represents : A.Represents trees) (live : A.isLive h = .ok true)
    (listed : A.Preorder h below) : A.size h = .ok below.length := by
  obtain ⟨cells, spans⟩ := represents.exists_spans live
  rw [spans.size, listed.unique spans.preorder, List.length_map]

theorem cell?_of_children {children : List Handle} (read : A.children h = .ok children) :
    ∃ n, A.cell? h = some n ∧ n.shape.children = children := by
  unfold Arena.children at read
  cases got : A.shape h with
  | error fault => simp [got, bind, Except.bind] at read
  | ok s =>
    obtain ⟨n, held, rfl⟩ := cell?_of_shape got
    exact ⟨n, held, by simpa [got, bind, Except.bind, pure, Except.pure] using read⟩

theorem Represents.isLive_of_children {children : List Handle} {c : Handle} (represents : A.Represents trees)
    (read : A.children h = .ok children) (member : c ∈ children) : A.isLive c = .ok true := by
  obtain ⟨n, held, rfl⟩ := cell?_of_children read
  obtain ⟨slot, found⟩ := List.mem_iff_getElem?.mp member
  have child : A.child h slot = .ok (some c) := by rw [child_of_cell? held, Shape.child?, found]
  exact represents.wellFormed.children_live child

/-- The number of nodes is one more than the sum of the numbers for the children. -/
theorem Represents.size_children (represents : A.Represents trees) (listed : A.Preorder h below) :
    ∃ children sizes, A.children h = .ok children ∧ children.mapM A.size = .ok sizes ∧
      below.length = sizes.sum + 1 := by
  cases listed with
  | leaf read => exact ⟨[], [], read, rfl, rfl⟩
  | @one _ c below read listed =>
    have only := represents.size_preorder (represents.isLive_of_children read (by simp)) listed
    refine ⟨[c], [below.length], read, ?_, rfl⟩
    simp [only, bind, Except.bind, pure, Except.pure]
  | @two _ l r first second read listed listed' =>
    have left := represents.size_preorder (represents.isLive_of_children read (by simp)) listed
    have right := represents.size_preorder (represents.isLive_of_children read (by simp)) listed'
    refine ⟨[l, r], [first.length, second.length], read, ?_, by simp⟩
    simp [left, right, bind, Except.bind, pure, Except.pure]

/-- What can be seen of the subtree of a node: the nodes below it in pre-order, its names, and a truth table
over them. -/
structure Overview (A : Arena) (h : Handle) (below : List Handle) (names : List String) (table : List Bool) :
    Prop where
  descendants : A.descendants h = .ok below
  stacked : ∀ turns, A.live ≤ turns → A.collectFrom (fun h _ => [h]) turns [h] = .ok below
  preorder : A.Preorder h below
  nodup : below.Nodup
  size : A.size h = .ok below.length
  count : ∃ children sizes, A.children h = .ok children ∧ children.mapM A.size = .ok sizes ∧
    below.length = sizes.sum + 1
  named : A.names h = .ok names
  sorted : names.Pairwise (· < ·)
  mem_names : ∀ name, name ∈ names ↔ ∃ k ∈ below, A.shape k = .ok (.id name)
  tabulated : A.truthTable names h = .ok table
  eval : ∀ σ, ∃ value, A.eval σ h = .ok value ∧ table[row names σ]? = some value ∧
    ∀ τ, (∀ name ∈ names, σ name = τ name) → A.eval τ h = .ok value

/-- A live node of a well-formed arena can be looked at: the list of its descendants is the pre-order of its
subtree, without repetition, its size counts them, and its names are those of the leaves that are names. Its
value depends on what is assigned to these names and is in the truth table over them. -/
theorem exists_overview (wellFormed : A.WellFormed) (live : A.isLive h = .ok true) :
    ∃ below names table, A.Overview h below names table := by
  obtain ⟨trees, represents⟩ := wellFormed.exists_represents
  obtain ⟨cells, spans⟩ := represents.exists_spans live
  obtain ⟨f, -, -, listed, evaluated⟩ := represents.readings live
  have same := Except.ok.inj (listed.symm.trans spans.occurrences)
  let names := f.occurrences.foldl (fun names name => insertName name names) []
  have occurs : ∀ {name}, name ∈ names ↔ name ∈ f.occurrences := by
    intro name
    rw [mem_insertNames]
    simp
  refine ⟨cells.map Prod.fst, names,
    (List.range (Nat.pow 2 names.length)).map fun mask => f.eval (maskAssignment names mask), ?_⟩
  refine ⟨spans.descendants, ?_, spans.preorder, spans.nodup, ?_, represents.size_children spans.preorder, ?_,
    sorted_insertNames .nil, fun name => ?_, Checked.mapM_ok fun mask _ => evaluated _, fun σ => ?_⟩
  · intro turns enough
    exact (represents.collectFrom_eq live _ enough).trans spans.descendants
  · rw [spans.size, List.length_map]
  · rw [Arena.names, listed]
    rfl
  · rw [occurs, same, spans.mem_names_iff]
  · refine ⟨f.eval σ, evaluated σ, ?_, fun τ agree => ?_⟩
    · have inside : row names σ < Nat.pow 2 names.length := Nat.ofBits_lt_two_pow _
      rw [List.getElem?_map, List.getElem?_range inside, Option.map_some]
      exact congrArg some (Formula.eval_congr fun name occurring => maskAssignment_row σ (occurs.mpr occurring))
    · rw [evaluated, Formula.eval_congr fun name occurring => (agree name (occurs.mpr occurring)).symm]

theorem overview_regroupedPair :
    regroupedPair.Overview ⟨9⟩ [⟨9⟩, ⟨8⟩, ⟨6⟩, ⟨5⟩, ⟨7⟩] ["x", "y"] [false, true, true, true] := by
  obtain ⟨below, names, table, view⟩ := exists_overview (h := ⟨9⟩) regroupedPair_wellFormed rfl
  obtain rfl := Except.ok.inj (view.descendants.symm.trans
    (rfl : regroupedPair.descendants ⟨9⟩ = .ok [⟨9⟩, ⟨8⟩, ⟨6⟩, ⟨5⟩, ⟨7⟩]))
  obtain rfl := Except.ok.inj (view.named.symm.trans
    (rfl : regroupedPair.names ⟨9⟩ = .ok ["x", "y"]))
  obtain rfl := Except.ok.inj (view.tabulated.symm.trans
    (rfl : regroupedPair.truthTable ["x", "y"] ⟨9⟩ = .ok [false, true, true, true]))
  exact view

end Arena

end Propositional
