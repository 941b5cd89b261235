import Propositional.Proofs.Term

/-!
# The cells of an arena

An arena owns a list of cells if these are all its nodes, each under its handle, and its table is
tidy. The order of the list does not matter, so what an operation does can be said of the cells it
touches, beside others that stay as they are.
-/

namespace Propositional

theorem Handle.index_inj {h k : Handle} : h.index = k.index ↔ h = k := by
  cases h
  cases k
  simp

namespace Arena

variable {A : Arena} {h : Handle} {n : Node} {cells rest : List Cell}

/-- The node in a cell, if there is one. -/
def cell? (A : Arena) (h : Handle) : Option Node := A.table.value? h.index

/-- The nodes of the arena are exactly these. -/
structure Owns (A : Arena) (cells : List Cell) : Prop where
  cell?_iff : ∀ h n, A.cell? h = some n ↔ (h, n) ∈ cells
  nodup : (cells.map Prod.fst).Nodup
  tidy : A.table.Tidy

/-! ### Reading -/

theorem node_of_cell? (held : A.cell? h = some n) : A.node h = .ok n := by
  simp [node, Checked.ofTable, Table.get_of_value? held, Except.mapError]

theorem shape_of_cell? (held : A.cell? h = some n) : A.shape h = .ok n.shape := by
  rw [shape, node_of_cell? held]
  rfl

theorem variant_of_cell? (held : A.cell? h = some n) : A.variant h = .ok n.shape.variant := by
  rw [variant, shape_of_cell? held]
  rfl

theorem parent_of_cell? (held : A.cell? h = some n) : A.parent h = .ok n.parent := by
  rw [parent, node_of_cell? held]
  rfl

theorem child_of_cell? (held : A.cell? h = some n) (slot : Nat) :
    A.child h slot = .ok (n.shape.child? slot) := by
  rw [child, shape_of_cell? held]
  rfl

theorem children_of_cell? (held : A.cell? h = some n) : A.children h = .ok n.shape.children := by
  rw [children, shape_of_cell? held]
  rfl

theorem isLive_of_cell? (held : A.cell? h = some n) : A.isLive h = .ok true := by
  simp [isLive, Checked.ofTable, Table.occupied_of_value? held, Except.mapError]

theorem cell?_of_isLive (live : A.isLive h = .ok true) : ∃ n, A.cell? h = some n := by
  apply Table.value?_of_occupied
  unfold isLive Checked.ofTable at live
  cases occupied : A.table.occupied h.index with
  | error fault => simp [occupied, Except.mapError] at live
  | ok b => simpa [occupied, Except.mapError] using live

theorem cell?_of_node (read : A.node h = .ok n) : A.cell? h = some n := by
  apply Table.value?_of_get
  unfold node Checked.ofTable at read
  cases got : A.table.get h.index with
  | error fault => simp [got, Except.mapError] at read
  | ok m => simpa [got, Except.mapError] using read

theorem cell?_of_shape {s : Shape Handle} (read : A.shape h = .ok s) :
    ∃ n, A.cell? h = some n ∧ n.shape = s := by
  unfold shape at read
  cases got : A.node h with
  | error fault => simp [got, bind, Except.bind] at read
  | ok n => exact ⟨n, cell?_of_node got, by simpa [got, bind, Except.bind, pure, Except.pure] using read⟩

theorem cell?_of_variant {v : Variant} (read : A.variant h = .ok v) :
    ∃ n, A.cell? h = some n ∧ n.shape.variant = v := by
  unfold variant at read
  cases got : A.shape h with
  | error fault => simp [got, bind, Except.bind] at read
  | ok s =>
    obtain ⟨n, held, rfl⟩ := cell?_of_shape got
    exact ⟨n, held, by simpa [got, bind, Except.bind, pure, Except.pure] using read⟩

theorem cell?_of_parent {p : Option Handle} (read : A.parent h = .ok p) :
    ∃ n, A.cell? h = some n ∧ n.parent = p := by
  unfold parent at read
  cases got : A.node h with
  | error fault => simp [got, bind, Except.bind] at read
  | ok n => exact ⟨n, cell?_of_node got, by simpa [got, bind, Except.bind, pure, Except.pure] using read⟩

theorem cell?_of_child {slot : Nat} {c : Option Handle} (read : A.child h slot = .ok c) :
    ∃ n, A.cell? h = some n ∧ n.shape.child? slot = c := by
  unfold child at read
  cases got : A.shape h with
  | error fault => simp [got, bind, Except.bind] at read
  | ok s =>
    obtain ⟨n, held, rfl⟩ := cell?_of_shape got
    exact ⟨n, held, by simpa [got, bind, Except.bind, pure, Except.pure] using read⟩

namespace Owns

theorem perm {cells' : List Cell} (owns : A.Owns cells) (perm : cells.Perm cells') : A.Owns cells' where
  cell?_iff h n := (owns.cell?_iff h n).trans perm.mem_iff
  nodup := (perm.map _).nodup_iff.mp owns.nodup
  tidy := owns.tidy

theorem cell? (owns : A.Owns cells) (member : (h, n) ∈ cells) : A.cell? h = some n :=
  (owns.cell?_iff h n).mpr member

theorem live_eq (owns : A.Owns cells) : A.live = cells.length ∧ cells.length ≤ A.table.size := by
  have nodup : ((cells.map Prod.fst).map Handle.index).Nodup := by
    exact owns.nodup.map (fun _ _ same => Handle.index_inj.mp same)
  have counted := Table.count_eq_length owns.tidy nodup (by
    intro i
    rw [List.mem_map]
    constructor
    · rintro ⟨h, used, rfl⟩
      obtain ⟨⟨_, n⟩, member, rfl⟩ := List.mem_map.mp used
      exact ⟨n, owns.cell? member⟩
    · rintro ⟨n, held⟩
      exact ⟨⟨i⟩, List.mem_map.mpr ⟨_, (owns.cell?_iff ⟨i⟩ n).mp held, rfl⟩, rfl⟩)
  simpa [live] using counted

theorem not_mem_of_cons {h : Handle} {n : Node} (owns : A.Owns ((h, n) :: cells)) {m : Node} :
    (h, m) ∉ cells := by
  have nodup := owns.nodup
  rw [List.map_cons, List.nodup_cons] at nodup
  exact fun member => nodup.1 (List.mem_map.mpr ⟨_, member, rfl⟩)

/-! ### Writing -/

theorem of_update {B : Arena} {m : Node} (owns : A.Owns ((h, n) :: rest)) (tidy : B.table.Tidy)
    (view : ∀ k, B.cell? k = if k = h then some m else A.cell? k) : B.Owns ((h, m) :: rest) where
  cell?_iff k l := by
    have old := owns.cell?_iff k l
    rw [List.mem_cons, Prod.mk.injEq] at old ⊢
    rw [view]
    by_cases same : k = h
    · subst same
      have elsewhere := owns.not_mem_of_cons (m := l)
      simp [elsewhere, eq_comm]
    · simpa [same] using old
  nodup := owns.nodup
  tidy := tidy

theorem setNode (owns : A.Owns ((h, n) :: rest)) (m : Node) :
    ∃ B, A.setNode h m = .ok B ∧ B.Owns ((h, m) :: rest) ∧ B.roots = A.roots := by
  obtain ⟨table, set, tidy, -, -, view⟩ := Table.set_ok owns.tidy (owns.cell? List.mem_cons_self) m
  refine ⟨{ A with table }, ?_, of_update owns tidy ?_, rfl⟩
  · simp [Arena.setNode, Checked.ofTable, set, Except.mapError, bind, Except.bind, pure, Except.pure]
  · intro k
    rw [Arena.cell?, view, Arena.cell?]
    simp only [Handle.index_inj]

theorem setParent (owns : A.Owns ((h, n) :: rest)) (parent : Option Handle) :
    ∃ B, A.setParent h parent = .ok B ∧ B.Owns ((h, { n with parent }) :: rest) ∧
      B.roots = A.roots := by
  rw [Arena.setParent, node_of_cell? (owns.cell? List.mem_cons_self)]
  exact owns.setNode _

theorem take (owns : A.Owns ((h, n) :: rest)) :
    ∃ B, A.take h = .ok (n, B) ∧ B.Owns rest ∧ B.roots = A.roots ∧ B.bound = A.bound := by
  obtain ⟨table, drop, tidy, size, -, view⟩ := Table.drop_ok owns.tidy (owns.cell? List.mem_cons_self)
  refine ⟨{ A with table }, ?_, ⟨?_, ?_, tidy⟩, rfl, congrArg (· + 1) size⟩
  · simp [Arena.take, Checked.ofTable, drop, Except.mapError, bind, Except.bind, pure, Except.pure]
  · intro k m
    have old := owns.cell?_iff k m
    rw [List.mem_cons, Prod.mk.injEq] at old
    rw [Arena.cell?, view]
    simp only [Handle.index_inj]
    by_cases same : k = h
    · subst same
      simp [owns.not_mem_of_cons]
    · simpa [same, Arena.cell?] using old
  · have nodup := owns.nodup
    rw [List.map_cons, List.nodup_cons] at nodup
    exact nodup.2

theorem alloc (owns : A.Owns cells) (n : Node) :
    ∃ i table, A.table.add n = (i, table) ∧ A.cell? ⟨i⟩ = none ∧
      ({ A with table } : Arena).Owns ((⟨i⟩, n) :: cells) := by
  obtain ⟨i, table, added, tidy, vacant, -, -, -, view⟩ := Table.add_ok owns.tidy n
  have unused : ∀ m, ((⟨i⟩ : Handle), m) ∉ cells := by
    intro m member
    have held := owns.cell? member
    simp [Arena.cell?, vacant] at held
  refine ⟨i, table, added, vacant, ⟨?_, ?_, tidy⟩⟩
  · intro k m
    have old := owns.cell?_iff k m
    rw [List.mem_cons, Prod.mk.injEq, Arena.cell?, view]
    by_cases same : k = ⟨i⟩
    · subst same
      simp [unused, eq_comm]
    · have different : k.index ≠ i := fun equal => same (Handle.index_inj.mp equal)
      simpa [same, different, Arena.cell?] using old
  · rw [List.map_cons, List.nodup_cons]
    refine ⟨?_, owns.nodup⟩
    intro member
    obtain ⟨⟨_, m⟩, member, rfl⟩ := List.mem_map.mp member
    exact unused m member

/-! ### Terms in an arena -/

theorem setParent_term {t : Term} {p : Option Handle} (owns : A.Owns (t.cells p ++ rest))
    (q : Option Handle) :
    ∃ B, A.setParent t.handle q = .ok B ∧ B.Owns (t.cells q ++ rest) ∧ B.roots = A.roots := by
  rw [Term.cells_eq, List.cons_append] at owns ⊢
  exact owns.setParent q

theorem setParent_terms (entries : List (Option Handle × Term)) (q : Option Handle)
    (owns : A.Owns (entries.flatMap (fun e => e.2.cells e.1) ++ rest)) :
    ∃ B, (entries.map (·.2.handle)).foldlM (fun A child => A.setParent child q) A = .ok B ∧
      B.Owns (entries.flatMap (fun e => e.2.cells q) ++ rest) ∧ B.roots = A.roots := by
  induction entries generalizing A rest with
  | nil => exact ⟨A, rfl, owns, rfl⟩
  | cons entry later ih =>
    obtain ⟨p, t⟩ := entry
    rw [List.flatMap_cons, List.append_assoc] at owns
    obtain ⟨B, first, owned, roots⟩ := owns.setParent_term q
    obtain ⟨C, others, owned, roots'⟩ := ih (owned.perm (List.perm_append_comm_assoc _ _ _))
    refine ⟨C, ?_, owned.perm ?_, roots'.trans roots⟩
    · rw [List.map_cons, List.foldlM_cons, first]
      exact others
    · rw [List.flatMap_cons, List.append_assoc]
      exact List.perm_append_comm_assoc _ _ _

theorem add (shape : Shape Handle) (entries : List (Option Handle × Term))
    (owns : A.Owns (entries.flatMap (fun e => e.2.cells e.1) ++ rest))
    (children : shape.children = entries.map (·.2.handle)) :
    ∃ h B, A.add shape = .ok (h, B) ∧ A.cell? h = none ∧
      B.Owns ((h, ⟨shape, none⟩) :: (entries.flatMap (fun e => e.2.cells (some h)) ++ rest)) ∧
      B.roots = A.roots := by
  obtain ⟨i, table, added, vacant, owned⟩ := owns.alloc ⟨shape, none⟩
  obtain ⟨B, adopted, owned, roots⟩ :=
    (owned.perm List.perm_middle.symm).setParent_terms entries (some ⟨i⟩)
  refine ⟨⟨i⟩, B, ?_, vacant, owned.perm List.perm_middle, roots⟩
  rw [Arena.add, added, children]
  simp only [adopted, bind, Except.bind, pure, Except.pure]

end Owns

end Arena

end Propositional
