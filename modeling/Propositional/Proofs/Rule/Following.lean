import Propositional.Proofs.Arena.Substitution
import Propositional.Rule.Builtin

/-!
# Rules that follow laws

A rule follows a law if, at every term in every arena, it proposes what the law proposes for the
formula, with the terms themselves where the law moves their formulas, and declines where the law has
nothing to propose. What it proposes can then be put in the place of the term.
-/

namespace Propositional

def Formula.variant : Formula → Variant
  | binary .. => .binary
  | not _ => .not
  | parens _ => .parens
  | id _ => .id
  | literal _ => .literal

namespace Term

variable {t s : Term} {p q : Option Handle}

theorem variant_shape (t : Term) : t.shape.variant = t.formula.variant := by cases t <;> rfl

theorem handles_sublist_of_mem_children {c : Term} (child : c ∈ t.children) :
    c.handles.Sublist (t.children.flatMap handles) := by
  rw [List.flatMap_def]
  exact List.sublist_flatten_of_mem (List.mem_map_of_mem child)

theorem handles_sublist_of_mem_subterms (inside : (q, s) ∈ t.subterms p) : s.handles.Sublist t.handles := by
  induction t using byChildren generalizing p with
  | step t ih =>
    rw [subterms_eq, List.mem_cons] at inside
    rcases inside with same | below
    · rw [(Prod.mk.inj same).2]
    · obtain ⟨c, child, below⟩ := List.mem_flatMap.mp below
      rw [handles_eq t]
      exact ((ih c child below).trans (handles_sublist_of_mem_children child)).trans (List.sublist_cons_self _ _)

theorem operands_sublist (op : Connective) (t : Term) :
    ((t.operands op).flatMap handles).Sublist t.handles := by
  induction t with
  | parens h inner ih => exact ih.trans (List.sublist_cons_self _ _)
  | binary h op' left right ihl ihr =>
    rw [operands]
    split
    · rw [List.flatMap_append]
      exact (ihl.append ihr).trans (List.sublist_cons_self _ _)
    · rw [List.flatMap_singleton]
  | _ => simp [operands]

end Term

namespace Draft

variable {t s : Term} {p q : Option Handle}

theorem within_literal (value : Bool) (t : Term) : (literal value : Draft Term).Within t :=
  ⟨by simp [parts], by simp [parts]⟩

theorem within_moved (nodup : t.handles.Nodup) (inside : ∀ p, ∃ q, (q, s) ∈ t.subterms p) :
    (moved s : Draft Term).Within t := by
  refine ⟨fun p u member => ?_, ?_⟩
  · rw [parts, List.mem_singleton] at member
    exact member ▸ inside p
  · obtain ⟨q, below⟩ := inside none
    rw [parts, List.flatMap_singleton]
    exact nodup.sublist (Term.handles_sublist_of_mem_subterms below)

theorem moved_ne_of_size_lt (smaller : s.size < t.size) : (moved s : Draft Term) ≠ moved t := by
  intro same
  rw [Draft.moved.inj same] at smaller
  omega

end Draft

namespace Rule

variable {A : Arena} {C : Place} {t s : Term} {h : Handle} {rule : Rule} {law : Law}

/-- The rule leaves a node alone. -/
def Declines (rule : Rule) (A : Arena) (h : Handle) : Prop :=
  rule.appropriate A h = .ok false ∨
    ∃ c, rule.appropriate A h = .ok true ∧ rule.propose A h = .ok c ∧ rule.accept A h c = .ok false

/-- The rule wants a candidate in the place of a node. -/
def Proposes (rule : Rule) (A : Arena) (h : Handle) (c : Candidate) : Prop :=
  rule.appropriate A h = .ok true ∧ rule.propose A h = .ok c ∧ rule.accept A h c = .ok true

/-- The rule does with terms what the law does with formulas. -/
structure Follows (rule : Rule) (law : Law) : Prop where
  target : ∀ {above f d}, law above f = some d → f.variant = rule.target
  answers : ∀ {A : Arena} {C : Place} {t : Term},
    A.Represents (C.fill t) → t.formula.variant = rule.target →
    law C.above t.formula = none ∧ rule.Declines A t.handle ∨
      ∃ d : Draft Term, law C.above t.formula = some (d.map Term.formula) ∧ d.Within t ∧ d ≠ .moved t ∧
        rule.Proposes A t.handle d.candidate

/-! ### Negations -/

theorem exists_not_of_variant (variant : t.formula.variant = .not) : ∃ h s, t = .not h s := by
  cases t with
  | not h s => exact ⟨h, s, rfl⟩
  | _ => simp [Term.formula, Formula.variant] at variant

theorem operand_not (represents : A.Represents (C.fill (.not h s))) : operand A h = .ok s.peel.shape := by
  have holds := represents.holds
  have below := holds.child (c := s) (by simp [Term.children])
  have small := represents.size_lt_bound
  have smaller : s.size < (Term.not h s).size := Term.size_le_of_mem_children (by simp [Term.children])
  rw [operand, show A.shape h = .ok (.not s.handle) from holds.shape]
  simp only [bind, Except.bind, Arena.peel_term below (by omega), Arena.shape_peel_term below]

theorem peel_subterm_not (h : Handle) (s : Term) (p : Option Handle) :
    ∃ q, (q, s.peel) ∈ (Term.not h s).subterms p := by
  obtain ⟨q, inside⟩ := s.peel_mem_subterms (some h)
  exact ⟨q, List.mem_cons_of_mem _ inside⟩

theorem child_subterm_of_peel {h : Handle} {s c : Term} (child : c ∈ s.peel.children) (p : Option Handle) :
    ∃ q, (q, c) ∈ (Term.not h s).subterms p := by
  obtain ⟨q, inside⟩ := peel_subterm_not h s p
  exact ⟨_, Term.subterms_trans inside (Term.child_mem_subterms q child)⟩

/-- A rule that asks for the sort of the operand follows a law that does, if it proposes the same where
both apply. -/
theorem follows_of_operand (sort : Variant) (target : rule.target = .not)
    (asks : ∀ A h, rule.appropriate A h = do return decide ((← operand A h).variant = sort))
    (accepts : ∀ A h c, rule.accept A h c = .ok true)
    (applies : ∀ {above f d}, law above f = some d → ∃ g, f = .not g ∧ g.peel.variant = sort)
    (proposes : ∀ {A : Arena} {C : Place} {h : Handle} {s : Term}, A.Represents (C.fill (.not h s)) →
      s.peel.formula.variant = sort → operand A h = .ok s.peel.shape →
      ∃ d : Draft Term, law C.above (.not s.formula) = some (d.map Term.formula) ∧ d.Within (.not h s) ∧
        d ≠ .moved (.not h s) ∧ rule.propose A h = .ok d.candidate) :
    Follows rule law where
  target drafted := by
    obtain ⟨g, rfl, -⟩ := applies drafted
    exact target.symm
  answers := by
    intro A C t represents variant
    obtain ⟨h, s, rfl⟩ := exists_not_of_variant (variant.trans target)
    have read := operand_not represents
    have asked : rule.appropriate A h = .ok (decide (s.peel.formula.variant = sort)) := by
      rw [asks, read, ← s.peel.variant_shape]
      rfl
    by_cases same : s.peel.formula.variant = sort
    · obtain ⟨d, drafted, within, changes, proposed⟩ := proposes represents same read
      refine Or.inr ⟨d, drafted, within, changes, ?_, proposed, accepts A h _⟩
      exact asked.trans (by rw [decide_eq_true same])
    · refine Or.inl ⟨?_, Or.inl (asked.trans (by rw [decide_eq_false same]))⟩
      apply Option.eq_none_iff_forall_ne_some.mpr
      intro d drafted
      obtain ⟨g, negation, applied⟩ := applies drafted
      rw [← Formula.not.inj negation, ← s.formula_peel] at applied
      exact same applied

theorem deMorgan_follows : Follows deMorgan Law.deMorgan := by
  refine follows_of_operand .binary rfl (fun _ _ => rfl) (fun _ _ _ => rfl) ?_ ?_
  · intro above f d drafted
    obtain ⟨g, op, left, right, rfl, peeled, -⟩ := Law.deMorgan_eq_some drafted
    exact ⟨g, rfl, by rw [peeled]; rfl⟩
  · intro A C h s represents variant read
    have peeled := s.formula_peel
    cases top : s.peel with
    | binary k op left right =>
      rw [top] at read peeled
      refine ⟨.binary op.flip (.not (.moved left)) (.not (.moved right)), ?_, ⟨?_, ?_⟩, by simp, ?_⟩
      · rw [Law.deMorgan, ← peeled]
        rfl
      · intro p u member
        refine child_subterm_of_peel ?_ p
        rw [top]
        exact member
      · obtain ⟨q, inside⟩ := peel_subterm_not h s none
        have sublist := Term.handles_sublist_of_mem_subterms inside
        rw [top, Term.handles] at sublist
        simpa [Draft.parts] using represents.nodup.sublist ((List.sublist_cons_self _ _).trans sublist)
      · simp only [deMorgan, read, bind, Except.bind]
        rfl
    | _ => simp [top, Term.formula, Formula.variant] at variant

theorem invertLiteral_follows : Follows invertLiteral Law.invertLiteral := by
  refine follows_of_operand .literal rfl (fun _ _ => rfl) (fun _ _ _ => rfl) ?_ ?_
  · intro above f d drafted
    obtain ⟨g, value, rfl, peeled, -⟩ := Law.invertLiteral_eq_some drafted
    exact ⟨g, rfl, by rw [peeled]; rfl⟩
  · intro A C h s represents variant read
    have peeled := s.formula_peel
    cases top : s.peel with
    | literal k value =>
      rw [top] at read peeled
      refine ⟨.literal (!value), ?_, Draft.within_literal _ _, by simp, ?_⟩
      · rw [Law.invertLiteral, ← peeled]
        rfl
      · simp only [invertLiteral, read, bind, Except.bind]
        rfl
    | _ => simp [top, Term.formula, Formula.variant] at variant

theorem doubleNegation_follows : Follows doubleNegation Law.doubleNegation := by
  refine follows_of_operand .not rfl (fun _ _ => rfl) (fun _ _ _ => rfl) ?_ ?_
  · intro above f d drafted
    obtain ⟨g, inner, rfl, peeled, -⟩ := Law.doubleNegation_eq_some drafted
    exact ⟨g, rfl, by rw [peeled]; rfl⟩
  · intro A C h s represents variant read
    have peeled := s.formula_peel
    cases top : s.peel with
    | not k inner =>
      rw [top] at read peeled
      have child : inner ∈ s.peel.children := by simp [top, Term.children]
      have within := Draft.within_moved represents.nodup (child_subterm_of_peel child)
      have smaller : inner.size < (Term.not h s).size :=
        Nat.lt_trans (Nat.lt_of_lt_of_le (Term.size_le_of_mem_children child) s.size_peel_le)
          (Term.size_le_of_mem_children (by simp [Term.children]))
      refine ⟨.moved inner, ?_, within, Draft.moved_ne_of_size_lt smaller, ?_⟩
      · rw [Law.doubleNegation, ← peeled]
        rfl
      · simp only [doubleNegation, read, bind, Except.bind]
        rfl
    | _ => simp [top, Term.formula, Formula.variant] at variant

/-! ### Parentheses -/

theorem dropParens_follows : Follows dropParens Law.dropParens where
  target drafted := by
    obtain ⟨g, rfl, -⟩ := Law.dropParens_eq_some drafted
    rfl
  answers := by
    intro A C t represents variant
    cases t with
    | parens h inner =>
      have child : inner ∈ (Term.parens h inner).children := by simp [Term.children]
      have within := Draft.within_moved represents.nodup
        (fun p => ⟨_, Term.child_mem_subterms p child⟩)
      have smaller := Term.size_le_of_mem_children child
      refine Or.inr ⟨.moved inner, rfl, within, Draft.moved_ne_of_size_lt smaller, rfl, ?_, rfl⟩
      simp only [dropParens, represents.holds.shape, bind, Except.bind, pure, Except.pure]
      rfl
    | _ => simp [Term.formula, Formula.variant, dropParens] at variant

/-! ### Literals below connectives -/

theorem literal?_term {p : Option Handle} (holds : A.Holds p t) (small : t.size < A.bound) :
    literal? A t.handle = .ok t.formula.literal? := by
  rw [literal?, Arena.peel_term holds small, Formula.literal?, ← Term.formula_peel]
  simp only [bind, Except.bind, Arena.shape_peel_term holds]
  cases t.peel <;> rfl

theorem literalOperand?_term {p : Option Handle} {op : Connective} {left right : Term}
    (holds : A.Holds p (.binary h op left right)) (small : (Term.binary h op left right).size < A.bound) :
    literalOperand? A (.binary op left.handle right.handle) =
      .ok (match left.formula.literal?, right.formula.literal? with
        | some value, _ => some (value, right.handle)
        | none, some value => some (value, left.handle)
        | none, none => none) := by
  have first := literal?_term (holds.child (c := left) (by simp [Term.children]))
    (Nat.lt_trans (Term.size_le_of_mem_children (by simp [Term.children])) small)
  have second := literal?_term (holds.child (c := right) (by simp [Term.children]))
    (Nat.lt_trans (Term.size_le_of_mem_children (by simp [Term.children])) small)
  simp only [literalOperand?, first, second, bind, Except.bind]
  cases left.formula.literal? <;> cases right.formula.literal? <;> rfl

theorem map_absorb (op : Connective) (value : Bool) (t : Term) :
    (Law.absorb op value t).map Term.formula = Law.absorb op value t.formula := by
  unfold Law.absorb
  split <;> rfl

theorem within_absorb {c : Term} (nodup : t.handles.Nodup) (child : c ∈ t.children) (op : Connective)
    (value : Bool) : (Law.absorb op value c).Within t ∧ Law.absorb op value c ≠ .moved t := by
  unfold Law.absorb
  split
  · exact ⟨Draft.within_moved nodup fun p => ⟨_, Term.child_mem_subterms p child⟩,
      Draft.moved_ne_of_size_lt (Term.size_le_of_mem_children child)⟩
  · exact ⟨Draft.within_literal _ _, by simp⟩

theorem candidate_absorb (op : Connective) (value : Bool) (t : Term) :
    (Law.absorb op value t).candidate =
      if value = op.neutral then .existing t.handle else .literal op.absorbing := by
  unfold Law.absorb
  split <;> rfl

theorem literalOperand_proposes {p : Option Handle} {op : Connective} {left right other : Term} {value : Bool}
    (holds : A.Holds p (.binary h op left right))
    (found : literalOperand? A (.binary op left.handle right.handle) = .ok (some (value, other.handle))) :
    literalOperand.Proposes A h (Law.absorb op value other).candidate := by
  have shape : A.shape h = .ok (.binary op left.handle right.handle) := holds.shape
  refine ⟨?_, ?_, rfl⟩
  · simp [literalOperand, shape, found, bind, Except.bind, pure, Except.pure]
  · simp only [literalOperand, shape, found, bind, Except.bind, pure, Except.pure, candidate_absorb]
    split <;> rfl

theorem literalOperand_follows : Follows literalOperand Law.literalOperand where
  target drafted := by
    obtain ⟨op, left, right, value, rfl, -⟩ := Law.literalOperand_eq_some drafted
    rfl
  answers := by
    intro A C t represents variant
    cases t with
    | binary h op left right =>
      have holds := represents.holds
      have found := literalOperand?_term holds represents.size_lt_bound
      have shape : A.shape h = .ok (.binary op left.handle right.handle) := holds.shape
      cases first : left.formula.literal? with
      | some value =>
        rw [first] at found
        obtain ⟨within, changes⟩ := within_absorb represents.nodup
          (show right ∈ (Term.binary h op left right).children by simp [Term.children]) op value
        refine Or.inr ⟨_, ?_, within, changes, literalOperand_proposes holds found⟩
        rw [map_absorb, Term.formula, Law.literalOperand, first]
      | none =>
        rw [first] at found
        cases second : right.formula.literal? with
        | some value =>
          rw [second] at found
          obtain ⟨within, changes⟩ := within_absorb represents.nodup
            (show left ∈ (Term.binary h op left right).children by simp [Term.children]) op value
          refine Or.inr ⟨_, ?_, within, changes, literalOperand_proposes holds found⟩
          rw [map_absorb, Term.formula, Law.literalOperand, first, second]
        | none =>
          rw [second] at found
          refine Or.inl ⟨?_, Or.inl ?_⟩
          · rw [Term.formula, Law.literalOperand, first, second]
          · simp [literalOperand, shape, found, bind, Except.bind, pure, Except.pure]
    | _ => simp [Term.formula, Formula.variant, literalOperand] at variant

end Rule

end Propositional
