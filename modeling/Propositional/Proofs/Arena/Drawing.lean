import Propositional.Proofs.Arena.Records
import Propositional.Proofs.Arena.Intact

/-!
# What a drawing shows

The statements of a drawing declare the nodes that can be reached from the given ones, each once and in the
group of its rank. An edge leads down from each of these nodes for each of its slots, and on request one leads
up to its parent. It does not matter how often or along how many of the given nodes a node is reached.
-/

namespace Propositional

/-- The rank in which nodes of a sort are drawn, if they share one. -/
def Variant.rank : Variant → Option Arena.Rank
  | root => some .source
  | id | literal => some .sink
  | binary | not | parens => none

/-- How the edge from a slot is marked. -/
def Variant.side : Variant → Nat → Option Arena.Side
  | binary, 0 => some .left
  | binary, 1 => some .right
  | _, _ => none

namespace Arena

variable {A : Arena} {starts : List Handle} {h p c : Handle} {n : Node} {t : Term} {q : Option Handle}
  {trees : List Tree}

/-! ### What can be reached -/

/-- The node has the other as a child. -/
def HoldsChild (A : Arena) (p c : Handle) : Prop := ∃ slot, A.child p slot = .ok (some c)

/-- The node is one of those given or somewhere below one. -/
def Reached (A : Arena) (starts : List Handle) (h : Handle) : Prop :=
  ∃ start ∈ starts, Relation.ReflTransGen A.HoldsChild start h

theorem Reached.child (reached : A.Reached starts p) (child : A.HoldsChild p c) : A.Reached starts c := by
  obtain ⟨start, given, path⟩ := reached
  exact ⟨start, given, path.tail child⟩

theorem holdsChild_iff (held : A.cell? p = some n) : A.HoldsChild p c ↔ c ∈ n.shape.children := by
  unfold HoldsChild
  rw [List.mem_iff_getElem?]
  refine exists_congr fun slot => ?_
  rw [child_of_cell? held, Shape.child?]
  exact ⟨Except.ok.inj, congrArg Except.ok⟩

theorem Holds.holdsChild_iff (holds : A.Holds q t) : A.HoldsChild t.handle c ↔ ∃ s ∈ t.children, s.handle = c := by
  rw [Arena.holdsChild_iff holds.top, t.children_shape, List.mem_map]

theorem Holds.path_of_mem (holds : A.Holds q t) (inside : h ∈ t.handles) :
    Relation.ReflTransGen A.HoldsChild t.handle h := by
  induction t using Term.byChildren generalizing q with
  | step t ih =>
    rw [Term.handles_eq, List.mem_cons] at inside
    rcases inside with rfl | below
    · exact .refl
    · obtain ⟨s, child, below⟩ := List.mem_flatMap.mp below
      exact .head (holds.holdsChild_iff.mpr ⟨s, child, rfl⟩) (ih s child (holds.child child) below)

theorem Holds.mem_of_child (holds : A.Holds q t) (inside : p ∈ t.handles) (child : A.HoldsChild p c) :
    c ∈ t.handles := by
  obtain ⟨r, s, below, rfl⟩ := Term.exists_subterm_of_mem_handles q inside
  obtain ⟨u, member, rfl⟩ := (holds.subterm below).holdsChild_iff.mp child
  exact Term.handles_subset_of_mem_subterms (Term.subterms_trans below (Term.child_mem_subterms r member))
    u.handle_mem_handles

theorem Holds.path_iff (holds : A.Holds q t) :
    Relation.ReflTransGen A.HoldsChild t.handle h ↔ h ∈ t.handles := by
  refine ⟨fun path => ?_, holds.path_of_mem⟩
  induction path with
  | refl => exact t.handle_mem_handles
  | tail _ child ih => exact holds.mem_of_child ih child

theorem Represents.descendants_live (represents : A.Represents trees) (live : A.isLive h = .ok true) :
    ∃ below, A.descendants h = .ok below ∧ ∀ k, k ∈ below ↔ Relation.ReflTransGen A.HoldsChild h k := by
  obtain ⟨n, held⟩ := cell?_of_isLive live
  -- A root has the top of its tree below it, and every other node is in a tree itself.
  rcases represents.locate_cell held with ⟨-, -, x, tree, rfl⟩ | ⟨C, t, rfl, rfl, -⟩
  · obtain ⟨rooted, holds, -⟩ := represents.tree tree
    refine ⟨_, represents.descendants_root tree, fun k => ?_⟩
    have child : ∀ c, A.HoldsChild x.root c ↔ c = x.body.handle := by
      intro c
      rw [Arena.holdsChild_iff rooted]
      exact List.mem_singleton
    rw [List.mem_cons, Relation.ReflTransGen.cases_head_iff, eq_comm]
    simp only [child, exists_eq_left, holds.path_iff]
  · exact ⟨_, represents.holds.descendants represents.size_lt_bound, fun k => represents.holds.path_iff.symm⟩

theorem Represents.isLive_of_path (represents : A.Represents trees) (live : A.isLive h = .ok true)
    (path : Relation.ReflTransGen A.HoldsChild h c) : A.isLive c = .ok true := by
  induction path with
  | refl => exact live
  | tail _ child _ =>
    obtain ⟨slot, child⟩ := child
    exact represents.wellFormed.children_live child

theorem reached_cons {start : Handle} :
    A.Reached (start :: starts) h ↔ Relation.ReflTransGen A.HoldsChild start h ∨ A.Reached starts h := by
  simp [Reached]

theorem Represents.reachable_ok (represents : A.Represents trees) (live : ∀ h ∈ starts, A.isLive h = .ok true) :
    ∃ nodes, A.reachable starts = .ok nodes ∧ nodes.Nodup ∧ ∀ h, h ∈ nodes ↔ A.Reached starts h := by
  obtain ⟨lists, listed, each⟩ := Checked.exists_mapM fun h given => represents.descendants_live (live h given)
  refine ⟨lists.flatten.eraseDups, ?_, nodup_eraseDups _, fun h => ?_⟩
  · rw [reachable, listed]
    rfl
  · rw [List.mem_eraseDups]
    -- There is one list for each given node, so the induction goes over both at once.
    clear listed live
    induction each with
    | nil => simp [Reached]
    | cons first _ ih => rw [List.flatten_cons, List.mem_append, reached_cons, ih, first]

/-- The entries are the nodes that can be reached, each once and with what is in its cell. -/
structure Drawn (A : Arena) (starts : List Handle) (entries : List Cell) : Prop where
  keys : (entries.map Prod.fst).Nodup
  held : ∀ e ∈ entries, A.cell? e.1 = some e.2
  reached : ∀ h, h ∈ entries.map Prod.fst ↔ A.Reached starts h

theorem Represents.drawing_ok (represents : A.Represents trees) (live : ∀ h ∈ starts, A.isLive h = .ok true)
    (style : DotStyle) : ∃ entries, A.drawing style starts = .ok (style.draw entries) ∧ A.Drawn starts entries := by
  obtain ⟨nodes, reachable, nodup, reached⟩ := represents.reachable_ok live
  have readable : ∀ h ∈ nodes, ∃ e : Cell, (do return (h, ← A.node h) : Checked Cell) = .ok e ∧
      A.cell? e.1 = some e.2 ∧ e.1 = h := by
    intro h member
    obtain ⟨start, given, path⟩ := (reached h).mp member
    obtain ⟨n, held⟩ := cell?_of_isLive (represents.isLive_of_path (live start given) path)
    exact ⟨(h, n), by rw [node_of_cell? held]; rfl, held, rfl⟩
  obtain ⟨entries, read, each⟩ := Checked.exists_mapM readable
  obtain ⟨held, keys⟩ := (List.forall₂_and_left _ _).mp each.flip
  have keys : entries.map Prod.fst = nodes := by
    rwa [← List.forall₂_map_left_iff, List.forall₂_eq_eq_eq] at keys
  refine ⟨entries, ?_, keys ▸ nodup, held, fun h => keys ▸ reached h⟩
  rw [drawing, reachable]
  simp only [bind, Except.bind] at read ⊢
  rw [read]
  rfl

/-! ### What a drawing has to show -/

def DotStyle.shapeAt (style : DotStyle) : Option Rank → Option String
  | some .source => some style.rootShape
  | some .sink => some style.leafShape
  | none => none

/-- The picture declares what is reached, and its edges are those down to children and then those up to parents,
each of them once. -/
structure Depicts (A : Arena) (style : DotStyle) (starts : List Handle) (picture : Picture)
    (down up : List (Handle × Handle × String)) : Prop where
  default_shape : picture.defaults = [s!"[shape={style.nodeShape}];"]
  declared_once : (picture.nodes.map Prod.fst).Nodup
  declared_iff : ∀ h rank attributes, (h, rank, attributes) ∈ picture.nodes ↔
    A.Reached starts h ∧ ∃ n, A.node h = .ok n ∧ n.shape.variant.rank = rank ∧
      nodeAttributes (style.shapeAt rank) (style.label h n) = attributes
  edges : picture.edges = down ++ up
  child_once : down.Nodup
  child_iff : ∀ p c attributes, (p, c, attributes) ∈ down ↔
    A.Reached starts p ∧ ∃ variant slot, A.variant p = .ok variant ∧ A.child p slot = .ok (some c) ∧
      childAttributes style.childEdge (variant.side slot) = attributes
  ends_declared : ∀ p c attributes, (p, c, attributes) ∈ down →
    p ∈ picture.nodes.map Prod.fst ∧ c ∈ picture.nodes.map Prod.fst
  parent_once : up.Nodup
  parent_iff : ∀ c p attributes, (c, p, attributes) ∈ up ↔
    style.parentLinks = true ∧ A.Reached starts c ∧ A.parent c = .ok (some p) ∧
      parentAttributes style.parentEdge = attributes

section

variable {style : DotStyle} {rank : Option Rank} {entries : List Cell}

/-! ### The parts of a drawing -/

def DotStyle.edges (style : DotStyle) (entries : List Cell) : List Statement :=
  entries.flatMap style.childEdges ++ if style.parentLinks then entries.flatMap style.parentEdges else []

theorem rank_variant (s : Shape Handle) :
    s.variant.rank = if s.isLeaf then some .sink else if s.variant = .root then some .source else none := by
  cases s <;> rfl

theorem draw_parts (style : DotStyle) (entries : List Cell) :
    ∃ tops inner leaves, (tops ++ (inner ++ leaves)).Perm entries ∧
      (∀ e ∈ tops, e.2.shape.variant.rank = some .source) ∧ (∀ e ∈ inner, e.2.shape.variant.rank = none) ∧
      (∀ e ∈ leaves, e.2.shape.variant.rank = some .sink) ∧
      style.draw entries = [.openGraph, .defaultShape style.nodeShape] ++
        (style.group .source style.rootShape tops ++ (inner.map (style.declaration none) ++
          (style.group .sink style.leafShape leaves ++ (style.edges entries ++ [.close])))) := by
  let isLeaf (e : Cell) : Bool := e.2.shape.isLeaf
  let isTop (e : Cell) : Bool := e.2.shape.variant = .root
  let others := entries.filter fun e => !isLeaf e
  refine ⟨others.filter isTop, others.filter fun e => !isTop e, entries.filter isLeaf, ?_, ?_, ?_, ?_, ?_⟩
  · calc others.filter isTop ++ (others.filter (fun e => !isTop e) ++ entries.filter isLeaf)
      _ = others.filter isTop ++ others.filter (fun e => !isTop e) ++ entries.filter isLeaf :=
        (List.append_assoc ..).symm
      List.Perm _ (others ++ entries.filter isLeaf) := (List.filter_append_perm _ _).append_right _
      List.Perm _ (entries.filter isLeaf ++ others) := List.perm_append_comm
      List.Perm _ entries := List.filter_append_perm _ _
  · intro e member
    have top : e.2.shape.variant = .root := of_decide_eq_true (List.mem_filter.mp member).2
    rw [top, Variant.rank]
  · intro e member
    obtain ⟨member, notTop⟩ := List.mem_filter.mp member
    have notLeaf := (List.mem_filter.mp member).2
    simp only [isLeaf, isTop, Bool.not_eq_true', decide_eq_false_iff_not] at notLeaf notTop
    simp [rank_variant, notLeaf, notTop]
  · intro e member
    rw [rank_variant, if_pos (List.mem_filter.mp member).2]
  · rw [DotStyle.draw, DotStyle.edges]
    simp only [List.partition_eq_filter_filter, List.append_assoc]
    rfl

/-- What each node has to show, with the node. -/
def perNode {β : Type} (f : Cell → List β) (entries : List Cell) : List (Handle × β) :=
  entries.flatMap fun e => (f e).map (Prod.mk e.1)

theorem perNode_singleton {β : Type} (f : Cell → β) :
    perNode (fun e => [f e]) entries = entries.map fun e => (e.1, f e) :=
  List.map_eq_flatMap.symm

theorem mem_perNode {β : Type} {f : Cell → List β} {b : β} :
    (h, b) ∈ perNode f entries ↔ ∃ n, (h, n) ∈ entries ∧ b ∈ f (h, n) := by
  simp [perNode]

theorem nodup_perNode {β : Type} {f : Cell → List β} (keys : (entries.map Prod.fst).Nodup)
    (each : ∀ e, (f e).Nodup) : (perNode f entries).Nodup := by
  rw [perNode, List.nodup_flatMap]
  refine ⟨fun e _ => (each e).map (Prod.mk_right_injective e.1), (List.pairwise_map.mp keys).imp ?_⟩
  intro e e' different x mem mem'
  obtain ⟨b, -, rfl⟩ := List.mem_map.mp mem
  obtain ⟨b', -, same⟩ := List.mem_map.mp mem'
  exact different (congrArg Prod.fst same).symm

/-- The children with the marks of the edges to them. -/
def sided (s : Shape Handle) : List (Handle × Option Side) :=
  s.children.zipIdx.map fun (c, slot) => (c, s.variant.side slot)

theorem mem_sided {s : Shape Handle} {side : Option Side} :
    (c, side) ∈ sided s ↔ ∃ slot, s.child? slot = some c ∧ s.variant.side slot = side := by
  simp [sided, Shape.child?, List.mem_zipIdx_iff_getElem?]

theorem nodup_sided (s : Shape Handle) : (sided s).Nodup := by
  cases s <;> simp [sided, Shape.children, Shape.variant, Variant.side]

/-- The declaration of a node, as it is read. -/
def DotStyle.shown (style : DotStyle) (e : Cell) : Option Rank × String :=
  let rank := e.2.shape.variant.rank
  (rank, nodeAttributes (style.shapeAt rank) (style.label e.1 e.2))

def DotStyle.down (style : DotStyle) (e : Cell) : List (Handle × String) :=
  (sided e.2.shape).map (Prod.map id (childAttributes style.childEdge))

def DotStyle.up (style : DotStyle) (e : Cell) : List (Handle × String) :=
  if style.parentLinks then e.2.parent.toList.map fun parent => (parent, parentAttributes style.parentEdge) else []

theorem nodup_down (e : Cell) : (style.down e).Nodup :=
  (nodup_sided e.2.shape).map (Function.injective_id.prodMap (childAttributes_injective _))

theorem nodup_up (e : Cell) : (style.up e).Nodup := by
  unfold DotStyle.up
  split
  · cases e.2.parent <;> simp
  · exact List.nodup_nil

def Record.ofEdge (edge : Handle × Handle × String) : Record := .edge edge.1 edge.2.1 edge.2.2

theorem record_edges : (style.edges entries).map Statement.record =
    (perNode style.down entries ++ perNode style.up entries).map Record.ofEdge := by
  have childEdges : ∀ e : Cell, (style.childEdges e).map Statement.record =
      ((style.down e).map (Prod.mk e.1)).map Record.ofEdge := by
    rintro ⟨h, shape, parent⟩
    cases shape <;> rfl
  have parentEdges : ∀ e : Cell, (if style.parentLinks then style.parentEdges e else []).map Statement.record =
      ((style.up e).map (Prod.mk e.1)).map Record.ofEdge := by
    rintro ⟨h, shape, parent⟩
    unfold DotStyle.up
    split
    · cases parent <;> rfl
    · rfl
  have links : (if style.parentLinks then entries.flatMap style.parentEdges else []) =
      entries.flatMap fun e => if style.parentLinks then style.parentEdges e else [] := by
    split <;> simp
  rw [DotStyle.edges, links, perNode, perNode]
  simp only [List.map_append, List.map_flatMap, childEdges, parentEdges]

variable {later : List Record} {picture : Picture}

theorem readBody_declared (style : DotStyle) (shape : Option String) (entries : List Cell)
    (read : readBody rank later = some picture) :
    readBody rank ((entries.map (style.declaration shape)).map Statement.record ++ later) = some { picture with
      nodes := entries.map (fun e => (e.1, rank, nodeAttributes shape (style.label e.1 e.2))) ++ picture.nodes } := by
  induction entries with
  | nil => exact read
  | cons e rest ih =>
    simp only [List.map_cons, List.cons_append, DotStyle.declaration, Statement.record] at ih ⊢
    cases rank <;> rw [readBody, ih] <;> rfl

theorem readBody_group (style : DotStyle) (rank : Rank) (shape : String) (entries : List Cell)
    (read : readBody none later = some picture) :
    readBody none ((style.group rank shape entries).map Statement.record ++ later) = some { picture with
      nodes := entries.map (fun e => (e.1, some rank, nodeAttributes (some shape) (style.label e.1 e.2))) ++
        picture.nodes } := by
  cases entries with
  | nil => exact read
  | cons e rest =>
    have records : (style.group rank shape (e :: rest)).map Statement.record ++ later = .group rank ::
        (((e :: rest).map (style.declaration (some shape))).map Statement.record ++ .close :: later) := by
      simp [DotStyle.group, Statement.record]
    have closed : readBody (some rank) (.close :: later) = some picture := read
    rw [records]
    exact readBody_declared style (some shape) (e :: rest) closed

theorem readBody_edges (edges : List (Handle × Handle × String)) (read : readBody none later = some picture) :
    readBody none (edges.map Record.ofEdge ++ later) = some { picture with edges := edges ++ picture.edges } := by
  induction edges with
  | nil => exact read
  | cons edge rest ih =>
    rw [List.map_cons, List.cons_append, Record.ofEdge, readBody, ih]
    rfl

theorem readGraph_draw (style : DotStyle) (entries : List Cell) :
    ∃ nodes, nodes.Perm (perNode (fun e => [style.shown e]) entries) ∧
      readGraph ((style.draw entries).map Statement.text) = some
        ⟨[s!"[shape={style.nodeShape}];"], nodes, perNode style.down entries ++ perNode style.up entries⟩ := by
  obtain ⟨tops, inner, leaves, perm, top, plain, leaf, drawn⟩ := draw_parts style entries
  have ranked : ∀ {part : List Cell} {rank : Option Rank}, (∀ e ∈ part, e.2.shape.variant.rank = rank) →
      part.map (fun e => (e.1, rank, nodeAttributes (style.shapeAt rank) (style.label e.1 e.2))) =
        part.map fun e => (e.1, style.shown e) :=
    fun all => List.map_congr_left fun e member => by rw [DotStyle.shown, all e member]
  refine ⟨(tops ++ (inner ++ leaves)).map fun e => (e.1, style.shown e), ?_, ?_⟩
  · rw [perNode_singleton]
    exact perm.map _
  · -- The parts are read from the last to the first, each in front of what is read behind it.
    have edges := readBody_edges (perNode style.down entries ++ perNode style.up entries)
      (show readBody none [.close] = some {} from rfl)
    have sinks := readBody_group style .sink style.leafShape leaves edges
    have plains := readBody_declared style none inner sinks
    have sources := readBody_group style .source style.rootShape tops plains
    have records : (style.draw entries).map Statement.record =
        .graph :: .defaults s!"[shape={style.nodeShape}];" ::
          ((style.group .source style.rootShape tops).map Statement.record ++
            ((inner.map (style.declaration none)).map Statement.record ++
              ((style.group .sink style.leafShape leaves).map Statement.record ++
                ((perNode style.down entries ++ perNode style.up entries).map Record.ofEdge ++ [.close])))) := by
      rw [drawn, ← record_edges]
      simp [Statement.record]
    rw [readGraph, Statement.mapM_read_text, records, Option.bind_eq_bind, Option.bind_some]
    dsimp only
    rw [readBody, sources, List.map_append, List.map_append, ← ranked top, ← ranked plain, ← ranked leaf]
    simp [DotStyle.shapeAt]

end

/-! ### The drawing of an arena -/

theorem dot_of_drawing {style : DotStyle} {statements : List Statement}
    (drawn : A.drawing style starts = .ok statements) :
    A.dot style starts = .ok (String.join (statements.map fun s => s.text ++ "\n")) := by
  rw [dot, drawn, String.join, List.foldl_map]
  simp only [← String.append_assoc]
  rfl

namespace Drawn

variable {style : DotStyle} {entries : List Cell}

theorem mem_perNode_iff (drawn : A.Drawn starts entries) {β : Type} {f : Cell → List β} {b : β} :
    (h, b) ∈ perNode f entries ↔ A.Reached starts h ∧ ∃ n, A.cell? h = some n ∧ b ∈ f (h, n) := by
  rw [mem_perNode, ← drawn.reached, List.mem_map]
  constructor
  · rintro ⟨n, member, shown⟩
    exact ⟨⟨_, member, rfl⟩, n, drawn.held _ member, shown⟩
  · rintro ⟨⟨e, member, rfl⟩, n, held, shown⟩
    -- The entry holds what is in the cell, so the node that is read is the one that is drawn.
    obtain rfl := Option.some.inj (held.symm.trans (drawn.held e member))
    exact ⟨_, member, shown⟩

theorem declared_iff (drawn : A.Drawn starts entries) {rank : Option Rank} {attributes : String} :
    (h, rank, attributes) ∈ perNode (fun e => [style.shown e]) entries ↔
      A.Reached starts h ∧ ∃ n, A.node h = .ok n ∧ n.shape.variant.rank = rank ∧
        nodeAttributes (style.shapeAt rank) (style.label h n) = attributes := by
  rw [drawn.mem_perNode_iff]
  refine and_congr_right fun _ => exists_congr fun n => ?_
  rw [List.mem_singleton, DotStyle.shown, Prod.mk.injEq]
  constructor
  · rintro ⟨held, rfl, rfl⟩
    exact ⟨node_of_cell? held, rfl, rfl⟩
  · rintro ⟨read, rfl, rfl⟩
    exact ⟨cell?_of_node read, rfl, rfl⟩

theorem childEdge_iff (drawn : A.Drawn starts entries) {attributes : String} :
    (p, c, attributes) ∈ perNode style.down entries ↔
      A.Reached starts p ∧ ∃ variant slot, A.variant p = .ok variant ∧ A.child p slot = .ok (some c) ∧
        childAttributes style.childEdge (variant.side slot) = attributes := by
  have written : ∀ n : Node, (c, attributes) ∈ style.down (p, n) ↔ ∃ slot, n.shape.child? slot = some c ∧
      childAttributes style.childEdge (n.shape.variant.side slot) = attributes := by
    intro n
    simp only [DotStyle.down, List.mem_map, Prod.map, Prod.mk.injEq, id, Prod.exists]
    constructor
    · rintro ⟨_, side, marked, rfl, rfl⟩
      obtain ⟨slot, child, rfl⟩ := mem_sided.mp marked
      exact ⟨slot, child, rfl⟩
    · rintro ⟨slot, child, rfl⟩
      exact ⟨c, _, mem_sided.mpr ⟨slot, child, rfl⟩, rfl, rfl⟩
  rw [drawn.mem_perNode_iff]
  refine and_congr_right fun _ => ⟨?_, ?_⟩
  · rintro ⟨n, held, member⟩
    obtain ⟨slot, child, marked⟩ := (written n).mp member
    exact ⟨_, slot, variant_of_cell? held, by rw [child_of_cell? held, child], marked⟩
  · rintro ⟨variant, slot, read, child, marked⟩
    obtain ⟨n, held, rfl⟩ := cell?_of_variant read
    rw [child_of_cell? held] at child
    exact ⟨n, held, (written n).mpr ⟨slot, Except.ok.inj child, marked⟩⟩

theorem parentEdge_iff (drawn : A.Drawn starts entries) {attributes : String} :
    (c, p, attributes) ∈ perNode style.up entries ↔
      style.parentLinks = true ∧ A.Reached starts c ∧ A.parent c = .ok (some p) ∧
        parentAttributes style.parentEdge = attributes := by
  have written : ∀ n : Node, (p, attributes) ∈ style.up (c, n) ↔
      style.parentLinks = true ∧ n.parent = some p ∧ parentAttributes style.parentEdge = attributes := by
    intro n
    unfold DotStyle.up
    split <;> simp [*]
  rw [drawn.mem_perNode_iff]
  constructor
  · rintro ⟨reached, n, held, member⟩
    obtain ⟨links, recorded, rfl⟩ := (written n).mp member
    exact ⟨links, reached, by rw [parent_of_cell? held, recorded], rfl⟩
  · rintro ⟨links, reached, read, rfl⟩
    obtain ⟨n, held, recorded⟩ := cell?_of_parent read
    exact ⟨reached, n, held, (written n).mpr ⟨links, recorded, rfl⟩⟩

theorem depicts (drawn : A.Drawn starts entries) {nodes : List (Handle × Option Rank × String)}
    (declared : nodes.Perm (perNode (fun e => [style.shown e]) entries)) :
    A.Depicts style starts
      ⟨[s!"[shape={style.nodeShape}];"], nodes, perNode style.down entries ++ perNode style.up entries⟩
      (perNode style.down entries) (perNode style.up entries) := by
  have keys : (nodes.map Prod.fst).Perm (entries.map Prod.fst) := by
    have perm := declared.map Prod.fst
    rwa [perNode_singleton, List.map_map] at perm
  refine ⟨rfl, keys.nodup_iff.mpr drawn.keys, fun _ _ _ => declared.mem_iff.trans drawn.declared_iff, rfl,
    nodup_perNode drawn.keys nodup_down, fun _ _ _ => drawn.childEdge_iff, fun p c attributes edge => ?_,
    nodup_perNode drawn.keys nodup_up, fun _ _ _ => drawn.parentEdge_iff⟩
  obtain ⟨reached, variant, slot, -, child, -⟩ := drawn.childEdge_iff.mp edge
  rw [keys.mem_iff, keys.mem_iff, drawn.reached, drawn.reached]
  exact ⟨reached, reached.child ⟨slot, child⟩⟩

end Drawn

/-- A drawing shows exactly the nodes that can be reached from the given ones, and exactly the links between them.
This is what its records say as they are written, one to a line. -/
theorem drawing_depicts (wellFormed : A.WellFormed) (live : ∀ h ∈ starts, A.isLive h = .ok true) (style : DotStyle) :
    ∃ statements picture down up, A.drawing style starts = .ok statements ∧
      A.dot style starts = .ok (String.join (statements.map fun s => s.text ++ "\n")) ∧
      readGraph (statements.map Statement.text) = some picture ∧ A.Depicts style starts picture down up := by
  obtain ⟨trees, represents⟩ := wellFormed.exists_represents
  obtain ⟨entries, drawing, drawn⟩ := represents.drawing_ok live style
  obtain ⟨nodes, declared, read⟩ := readGraph_draw style entries
  exact ⟨_, _, _, _, drawing, dot_of_drawing drawing, read, drawn.depicts declared⟩

/-- `NOT (x AND TRUE)` below its root, drawn from nodes of which some are below others and one is given twice. -/
theorem drawing_depicts_negatedPair : ∃ statements picture down up,
    negatedPair.drawing { parentLinks := true } [⟨4⟩, ⟨5⟩, ⟨3⟩, ⟨4⟩] = .ok statements ∧
      statements.map Statement.text = ["digraph \x7b", "node [shape=ellipse];",
        "\x7b rank=source", "5 [shape=rect, label=\"root\"];", "\x7d",
        "4 [label=\"NOT\"];", "3 [label=\"AND\"];",
        "\x7b rank=sink", "1 [shape=box, label=\"x\"];", "2 [shape=box, label=\"TRUE\"];", "\x7d",
        "4 -> 3 [style=solid];", "3 -> 1 [style=solid, label=\"L\"];", "3 -> 2 [style=solid, label=\"R\"];",
        "5 -> 4 [style=solid];", "4 -> 5 [style=dashed, constraint=false];",
        "3 -> 4 [style=dashed, constraint=false];", "1 -> 3 [style=dashed, constraint=false];",
        "2 -> 3 [style=dashed, constraint=false];", "\x7d"] ∧
      readGraph (statements.map Statement.text) = some picture ∧
      negatedPair.Depicts { parentLinks := true } [⟨4⟩, ⟨5⟩, ⟨3⟩, ⟨4⟩] picture down up := by
  have live : ∀ h ∈ [⟨4⟩, ⟨5⟩, ⟨3⟩, ⟨4⟩], negatedPair.isLive h = .ok true := by decide
  obtain ⟨statements, picture, down, up, drawing, -, read, depicts⟩ :=
    drawing_depicts negatedPair_wellFormed live { parentLinks := true }
  refine ⟨statements, picture, down, up, drawing, ?_, read, depicts⟩
  have drawn : negatedPair.drawing { parentLinks := true } [⟨4⟩, ⟨5⟩, ⟨3⟩, ⟨4⟩] = .ok _ := rfl
  obtain rfl := Except.ok.inj (drawn.symm.trans drawing)
  rfl

end Arena

end Propositional
