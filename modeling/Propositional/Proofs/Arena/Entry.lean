import Propositional.Arena.Enter
import Propositional.Proofs.Arena.Graft
import Propositional.Proofs.Arena.WellFormed
import Propositional.Proofs.Formula.Reader
import Propositional.Proofs.Token.Lexer

/-!
# Entering texts into a forest

A text that stands for a formula adds one tree to the forest of an arena, with a new root at the end
of the list of roots. Any other text leaves the forest as it was, since all nodes that were added for
it are taken out again. Which of the two happens is decided by the grammar alone.
-/

namespace Propositional

/-- The formula as new nodes only. -/
def Formula.sketch : Formula → Draft Term
  | binary op left right => .binary op left.sketch right.sketch
  | not operand => .not operand.sketch
  | parens inner => .parens inner.sketch
  | id name => .id name
  | literal value => .literal value

namespace Formula

theorem candidate_sketch (f : Formula) : f.sketch.candidate = f.toCandidate := by
  induction f <;> simp_all [sketch, Draft.candidate, toCandidate]

theorem parts_sketch (f : Formula) : f.sketch.parts = [] := by
  induction f <;> simp_all [sketch, Draft.parts]

theorem formula_sketch (f : Formula) : (f.sketch.map Term.formula).formula = f := by
  induction f <;> simp_all [sketch, Draft.map, Draft.formula]

end Formula

namespace Arena

variable {A : Arena} {trees : List Tree} {rest : List Cell} {input : String}

/-! ### Adding and taking out -/

theorem graft_formula (f : Formula) (owns : A.Owns rest) :
    ∃ (t : Term) (fresh : List Handle) (B : Arena), A.graft f.toCandidate = .ok (t.handle, fresh, B) ∧
      t.formula = f ∧ t.handles.Perm fresh ∧ B.Owns (t.cells none ++ rest) ∧ B.roots = A.roots := by
  have nothing : ([] : List (Option Handle × Term)).map Prod.snd = f.sketch.parts := f.parts_sketch.symm
  obtain ⟨t, fresh, p, B, grafted, builds, owned, roots, above⟩ := graft_ok nothing owns
  have new : f.sketch.isMoved = false := by cases f <;> rfl
  obtain rfl := above new
  have handles := builds.handles_perm
  rw [f.parts_sketch, List.flatMap_nil, List.append_nil] at handles
  exact ⟨t, fresh, B, f.candidate_sketch ▸ grafted, builds.formula.trans f.formula_sketch, handles,
    owned, roots⟩

theorem graftAll_ok (fs : List Formula) (owns : A.Owns rest) :
    ∃ cells fresh B, A.graftAll fs = .ok (fresh, B) ∧ (cells.map Prod.fst).Perm fresh ∧
      B.Owns (cells ++ rest) ∧ B.roots = A.roots := by
  induction fs generalizing A rest with
  | nil => exact ⟨[], [], A, rfl, .refl _, owns, rfl⟩
  | cons f later ih =>
    obtain ⟨t, fresh, B, grafted, -, handles, owned, roots⟩ := graft_formula f owns
    obtain ⟨cells, freshLater, E, graftedLater, handlesLater, owned, roots'⟩ := ih owned
    refine ⟨t.cells none ++ cells, fresh ++ freshLater, E, ?_, ?_, owned.perm ?_, roots'.trans roots⟩
    · rw [graftAll, grafted]
      simp only [bind, Except.bind, graftedLater]
      rfl
    · rw [List.map_append, Term.map_fst_cells]
      exact handles.append handlesLater
    · rw [List.append_assoc]
      exact List.perm_append_comm_assoc _ _ _

/-- Nodes that are all there can be taken out in any order. -/
theorem takeAll_ok {nodes : List Handle} {cells : List Cell} (all : (cells.map Prod.fst).Perm nodes)
    (owns : A.Owns (cells ++ rest)) :
    ∃ B, A.takeAll nodes = .ok B ∧ B.Owns rest ∧ B.roots = A.roots := by
  induction nodes generalizing A cells with
  | nil =>
    obtain rfl : cells = [] := List.map_eq_nil_iff.mp (List.perm_nil.mp all)
    exact ⟨A, rfl, owns, rfl⟩
  | cons h later ih =>
    -- The cells are in the order of the trees, and the node to be taken out stands somewhere among them.
    obtain ⟨⟨k, n⟩, member, same⟩ := List.mem_map.mp (all.mem_iff.mpr List.mem_cons_self)
    obtain rfl : k = h := same
    obtain ⟨before, after, rfl⟩ := List.append_of_mem member
    have split : (before ++ (k, n) :: after).Perm ((k, n) :: (before ++ after)) := List.perm_middle
    obtain ⟨B, taken, owned, roots, -⟩ := (owns.perm (split.append_right rest)).take
    have others : ((before ++ after).map Prod.fst).Perm later :=
      ((split.map Prod.fst).symm.trans all).cons_inv
    obtain ⟨E, takenLater, owned, roots'⟩ := ih others owned
    refine ⟨E, ?_, owned, roots'.trans roots⟩
    rw [takeAll, List.foldlM_cons, taken]
    exact takenLater

/-! ### Entering -/

theorem represents_empty : ({} : Arena).Represents [] := by
  refine ⟨⟨fun h n => ?_, List.nodup_nil, ?_⟩, fun h => ?_⟩
  · simp [cell?, Table.value?, forestCells]
  · refine ⟨List.nodup_nil, fun i => ⟨?_, ?_⟩, rfl⟩
    · intro member
      cases member
    · rintro ⟨positive, inside, -⟩
      simp [Table.size] at inside
      omega
  · simp

theorem Owns.withRoots {cells : List Cell} (owns : A.Owns cells) (roots : List Handle) :
    ({ A with roots } : Arena).Owns cells :=
  ⟨owns.cell?_iff, owns.nodup, owns.tidy⟩

namespace Represents

theorem enter_ok (represents : A.Represents trees) {f : Formula} (read : Formula.read input = .ok f) :
    ∃ x B, A.enter input = .ok (.ok x.root, B) ∧ x.body.formula = f ∧ B.Represents (trees ++ [x]) ∧
      x.root ∉ A.roots ∧ B.roots = A.roots ++ [x.root] := by
  obtain ⟨t, fresh, A₁, grafted, formula, -, owned, roots₁⟩ := graft_formula f represents.owns
  have held : A₁.cell? t.handle = some ⟨t.shape, none⟩ := by
    refine owned.cell? (List.mem_append_left _ ?_)
    rw [Term.cells_eq]
    exact List.mem_cons_self
  obtain ⟨root, B, added, -, owned, roots₂⟩ :=
    Owns.add (.root t.handle) [(none, t)] (by simpa using owned) rfl
  have entered : A.enter input = .ok (.ok root, { B with roots := B.roots ++ [root] }) := by
    rw [enter, read]
    simp only [bind, Except.bind, grafted, addRoot, parent_of_cell? held, added, pure, Except.pure]
  have roots : B.roots ++ [root] = A.roots ++ [root] := by rw [roots₂, roots₁]
  have represented : ({ B with roots := B.roots ++ [root] } : Arena).Represents (trees ++ [⟨root, t⟩]) := by
    refine ⟨(owned.withRoots _).perm ?_, fun h => ?_⟩
    · rw [List.flatMap_singleton]
      unfold forestCells
      rw [List.flatMap_append, List.flatMap_singleton]
      exact (List.perm_append_comm : (Tree.cells ⟨root, t⟩ ++ trees.flatMap Tree.cells).Perm _)
    · rw [roots, List.mem_append, represents.mem_roots]
      simp [or_and_right, exists_or, eq_comm]
  have new : root ∉ A.roots := by
    intro listed
    obtain ⟨y, tree, same⟩ := (represents.mem_roots root).mp listed
    have nodup := represented.nodup_roots
    rw [List.map_append] at nodup
    exact List.disjoint_of_nodup_append nodup (List.mem_map_of_mem tree) (by simp [same])
  exact ⟨⟨root, t⟩, _, entered, formula, represented, new, roots⟩

theorem enter_error (represents : A.Represents trees) {failure : Unreadable}
    (read : Formula.read input = .error failure) :
    ∃ B, A.enter input = .ok (.error failure.error, B) ∧ B.Represents trees ∧ B.roots = A.roots := by
  obtain ⟨cells, fresh, A₁, grafted, handles, owned, roots₁⟩ :=
    graftAll_ok failure.completed represents.owns
  obtain ⟨B, taken, owned, roots₂⟩ := takeAll_ok handles owned
  have roots := roots₂.trans roots₁
  refine ⟨B, ?_, ⟨owned, fun h => by rw [roots, represents.mem_roots]⟩, roots⟩
  rw [enter, read]
  simp only [bind, Except.bind, grafted, taken]
  rfl

end Represents

/-- A text is entered if and only if all of it is tokens and these derive from the grammar. Then they
do so in one way only, and the tree of the derivation is what stands below the new root. Any other
text is refused with a syntax error, never with a fault. -/
theorem enter_accepts_grammar (wellFormed : A.WellFormed) (input : String) :
    ∃ result B, A.enter input = .ok (result, B) ∧
      ((∃ root, result = .ok root) ↔ ∃ tokens eof, tokenize input = .ok (tokens ++ [eof]) ∧ eof.kind = .eof ∧
        ∃ d : Derivation (.chain .or), d.tokens = tokens) ∧
      ∀ root, result = .ok root → root ∉ A.roots ∧ B.roots = A.roots ++ [root] ∧
        ∃ eof, ∃ d : Derivation (.chain .or), tokenize input = .ok (d.tokens ++ [eof]) ∧
          (∀ e : Derivation (.chain .or), e.tokens = d.tokens → e = d) ∧ B.formula root = .ok d.formula := by
  obtain ⟨trees, represents⟩ := wellFormed.exists_represents
  cases read : Formula.read input with
  | ok f =>
    obtain ⟨x, B, entered, rfl, represented, new, roots⟩ := represents.enter_ok read
    obtain ⟨eof, d, tokenized, formula⟩ := Formula.read_eq_ok_iff.mp read
    refine ⟨.ok x.root, B, entered, ⟨fun _ => ?_, fun _ => ⟨_, rfl⟩⟩, ?_⟩
    · exact ⟨d.tokens, eof, tokenized, kind_of_tokenize tokenized, d, rfl⟩
    · intro root same
      obtain rfl := Except.ok.inj same
      refine ⟨new, roots, eof, d, tokenized, fun e same => e.eq_of_tokens_eq d same, ?_⟩
      rw [formula]
      exact represented.formula_root (by simp)
  | error failure =>
    obtain ⟨B, entered, -⟩ := represents.enter_error read
    refine ⟨.error failure.error, B, entered, ⟨by simp, ?_⟩, by simp⟩
    rintro ⟨tokens, eof, tokenized, -, d, rfl⟩
    have accepted := Formula.read_eq_ok_iff.mpr ⟨eof, d, tokenized, rfl⟩
    rw [read] at accepted
    cases accepted

/-- How `NOT a AND (b OR TRUE)` derives from the grammar. -/
def groupedChain : Derivation (.chain .or) :=
  let negation : Derivation .unary := .not ⟨.not, "NOT", 0⟩ rfl (.primary (.name ⟨.ident, "a", 4⟩ rfl))
  let choice : Derivation (.chain .or) :=
    .more (.first (.first (.primary (.name ⟨.ident, "b", 11⟩ rfl)))) ⟨.or, "OR", 13⟩ rfl
      (.first (.primary (.literal ⟨.true, "TRUE", 16⟩ true rfl)))
  .first (.more (.first negation) ⟨.and, "AND", 6⟩ rfl
    (.primary (.group ⟨.openParen, "(", 10⟩ rfl choice ⟨.closeParen, ")", 20⟩ rfl)))

theorem enter_accepts_grammar_negatedPair : ∃ root B,
    negatedPair.enter "NOT a AND (b OR TRUE)" = .ok (.ok root, B) ∧ B.formula root =
      .ok (.binary .and (.not (.id "a")) (.parens (.binary .or (.id "b") (.literal true)))) := by
  have tokenized : tokenize "NOT a AND (b OR TRUE)" = .ok (groupedChain.tokens ++ [⟨.eof, "", 21⟩]) := by
    decide +kernel
  obtain ⟨result, B, entered, accepted, built⟩ :=
    enter_accepts_grammar negatedPair_wellFormed "NOT a AND (b OR TRUE)"
  obtain ⟨root, rfl⟩ := accepted.mpr ⟨_, _, tokenized, rfl, groupedChain, rfl⟩
  obtain ⟨-, -, eof, d, tokenized', unique, formula⟩ := built root rfl
  have same : groupedChain.tokens = d.tokens :=
    List.append_inj_left' (Except.ok.inj (tokenized.symm.trans tokenized')) rfl
  obtain rfl := unique groupedChain same
  exact ⟨root, B, entered, formula⟩

end Arena

end Propositional
