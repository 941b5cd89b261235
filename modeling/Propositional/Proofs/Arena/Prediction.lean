import Propositional.Proofs.Arena.Contract
import Propositional.Proofs.Rule.Operands

/-!
# Candidates that change nothing

Comparing a node with a candidate tells in advance whether putting the candidate in its place would leave
an equal tree: what hangs in a place decides whether the whole tree is the same. So the rule for chains
replaces where the tree changes by it, and declines only where it would not.
-/

namespace Propositional

/-- Trees that differ in one place at most are equal if and only if they agree there. -/
theorem Place.formula_plug_eq_iff (C : Place) {t s : Term} :
    (C.plug t).formula = (C.plug s).formula ↔ t.formula = s.formula := by
  induction C generalizing t s with
  | top before h after => rfl
  | left up h op sibling ih | right up h op sibling ih => simp [plug, ih, Term.formula]
  | not up h ih | parens up h ih => simp [plug, ih, Term.formula]

namespace Arena

variable {A B : Arena} {C : Place} {t s : Term} {c : Candidate} {d : Draft Term} {h parent : Handle}

/-- Putting the candidate in the place of the node succeeds, and `same` says whether the tree with the
node is then structurally equal to what it was. -/
def LeavesEqual (A : Arena) (h : Handle) (c : Candidate) (same : Bool) : Prop :=
  ∃ fresh B root, A.substitute h c = .ok (fresh, B) ∧ root ∈ A.roots ∧ root ∈ B.roots ∧
    Relation.ReflTransGen A.NamesParent h root ∧ A.structuralEqIn root B root = .ok same

namespace Represents

theorem reaches_root (represents : A.Represents (C.fill t)) :
    Relation.ReflTransGen A.NamesParent t.handle C.root := by
  induction C generalizing t with
  | top before h after => exact .single represents.parent_top
  | left up h op sibling ih | right up h op sibling ih => exact .head represents.parent_top (ih represents)
  | not up h ih | parens up h ih => exact .head represents.parent_top (ih represents)

theorem structuralEqIn_place (before : A.Represents (C.fill t)) (after : B.Represents (C.fill s)) :
    A.structuralEqIn C.root B C.root = .ok (decide (t.formula = s.formula)) := by
  have tree : ∀ u, ⟨C.root, C.plug u⟩ ∈ C.fill u := by
    intro u
    rw [C.fill_eq]
    exact List.mem_append_right _ List.mem_cons_self
  have compared := before.structuralEqIn_root (tree t) after (tree s)
  simpa only [C.formula_plug_eq_iff] using compared

theorem reproduces_candidate (represents : A.Represents (C.fill t)) (within : d.Within t) :
    A.reproduces t.handle d.candidate = .ok (decide (t.formula = (d.map Term.formula).formula)) := by
  apply reproduces_term represents.holds represents.size_lt_bound
  intro u part
  obtain ⟨q, held, -⟩ := represents.exists_holds_of_part within u part
  exact ⟨q, held⟩

theorem leavesEqual (represents : A.Represents (C.fill t)) (within : d.Within t) (changes : d ≠ .moved t) :
    A.LeavesEqual t.handle d.candidate (decide (t.formula = (d.map Term.formula).formula)) := by
  obtain ⟨s, fresh, B, replaced, builds, after, roots, -⟩ := represents.substitute within changes
  have listed : C.root ∈ A.roots := by
    rw [represents.mem_roots, C.fill_eq]
    exact ⟨_, List.mem_append_right _ List.mem_cons_self, rfl⟩
  refine ⟨fresh, B, C.root, replaced, listed, roots ▸ listed, represents.reaches_root, ?_⟩
  rw [represents.structuralEqIn_place after, builds.formula]

end Represents

theorem reducedTerm_ne_moved (h : Handle) (op : Connective) (left right : Term) :
    Rule.reducedTerm op ((Term.binary h op left right).operands op) ≠ .moved (.binary h op left right) := by
  intro moved
  -- The node would be an operand of its own chain, and operands are below the node.
  have part : Term.binary h op left right ∈ (Term.binary h op left right).operands op := by
    apply (Rule.parts_reducedTerm_sublist op _).subset
    rw [moved]
    exact List.mem_cons_self
  have smaller := Term.size_lt_of_mem_operands part
  omega

theorem accept_chainReduction {same : Bool} (compared : A.reproduces h c = .ok same) :
    Rule.chainReduction.accept A h c = .ok (!same) := by
  simp [Rule.chainReduction, compared, bind, Except.bind, pure, Except.pure]

/-- Whether a candidate reproduces a node is whether the tree with the node is left as it is by putting the
candidate in its place. A chain that is reduced changes the tree, and one that is refused would not have. -/
theorem reproduces_predicts (wellFormed : A.WellFormed) (attached : A.parent h = .ok (some parent)) :
    (∀ c, A.Admits h c → ∃ same, A.reproduces h c = .ok same ∧ A.LeavesEqual h c same) ∧
    (A.variant h = .ok .binary → ∃ c accepted, Rule.chainReduction.propose A h = .ok c ∧ A.Admits h c ∧
      Rule.chainReduction.accept A h c = .ok accepted ∧ A.LeavesEqual h c (!accepted)) := by
  obtain ⟨C, t, represents, rfl, rfl⟩ := wellFormed.exists_place attached
  constructor
  · intro c admits
    obtain ⟨d, rfl, within, changes⟩ := represents.exists_draft admits
    exact ⟨_, represents.reproduces_candidate within, represents.leavesEqual within changes⟩
  · intro variant
    rw [variant_of_cell? represents.holds.top] at variant
    cases t with
    | binary k op left right =>
      have within := Rule.reducedTerm_within represents.nodup op
      have changes := reducedTerm_ne_moved k op left right
      have reads : A.Reads (.binary k op left right) := ⟨⟨_, represents.holds⟩, represents.size_lt_bound⟩
      have accepted := accept_chainReduction (represents.reproduces_candidate within)
      refine ⟨_, _, Rule.reducedChainBy_term Rule.digest reads, ?_, accepted, ?_⟩
      · exact represents.admits_draft within changes
      · rw [Bool.not_not]
        exact represents.leavesEqual within changes
    | _ => simp [Term.shape, Shape.variant] at variant

theorem reproduces_predicts_negatedPair :
    negatedPair.LeavesEqual ⟨3⟩ (.binary .or (.existing ⟨1⟩) (.literal false)) false ∧
    ∃ c accepted, Rule.chainReduction.propose negatedPair ⟨3⟩ = .ok c ∧
      Rule.chainReduction.accept negatedPair ⟨3⟩ c = .ok accepted ∧
      negatedPair.LeavesEqual ⟨3⟩ c (!accepted) := by
  have attached : negatedPair.parent ⟨3⟩ = .ok (some ⟨4⟩) := rfl
  obtain ⟨predicts, chains⟩ := reproduces_predicts negatedPair_wellFormed attached
  constructor
  · obtain ⟨same, compared, leaves⟩ := predicts _ negatedPair_admits
    have different : negatedPair.reproduces ⟨3⟩ (.binary .or (.existing ⟨1⟩) (.literal false)) = .ok false := by
      decide +kernel
    obtain rfl := Except.ok.inj (compared.symm.trans different)
    exact leaves
  · obtain ⟨c, accepted, proposed, -, asked, leaves⟩ := chains rfl
    exact ⟨c, accepted, proposed, asked, leaves⟩

end Arena

end Propositional
