import Propositional.Proofs.Formula.Settling

/-!
# Simplified formulas

What a simplified formula looks like, said of its parts one by one: which nodes there are, what stands
below them, and what the operands of its longest chains are. These are the normal formulas, and the
formulas that all laws of the library together leave alone.
-/

namespace Propositional.Formula

variable {above c : Option Connective} {op : Connective} {f g l r : Formula}

/-- All parts of a formula, itself included, each with the connective right above it, parentheses
aside. -/
def subformulas : Option Connective → Formula → List (Option Connective × Formula)
  | above, binary op left right =>
    (above, binary op left right) :: (left.subformulas (some op) ++ right.subformulas (some op))
  | above, not operand => (above, not operand) :: operand.subformulas none
  | above, parens inner => (above, parens inner) :: inner.subformulas above
  | above, f => [(above, f)]

/-- A binary node heads a longest chain if the connective above it is another one. The operands of that
chain are all different, and none is the negation of another. -/
structure Simplified (above : Option Connective) (f : Formula) : Prop where
  no_parens : ∀ c g, (c, parens g) ∉ f.subformulas above
  negates_names : ∀ c g, (c, not g) ∈ f.subformulas above → ∃ name, g = id name
  no_literal_operand : ∀ c op l r, (c, binary op l r) ∈ f.subformulas above →
    l.isLiteral = false ∧ r.isLiteral = false
  groups_left : ∀ c op l r, (c, binary op l r) ∈ f.subformulas above → r.head? ≠ some op
  distinct : ∀ c op l r, (c, binary op l r) ∈ f.subformulas above → c ≠ some op →
    ((binary op l r).operands op).Nodup
  consistent : ∀ c op l r, (c, binary op l r) ∈ f.subformulas above → c ≠ some op →
    ∀ x ∈ (binary op l r).operands op, not x ∉ (binary op l r).operands op

theorem self_mem_subformulas (above : Option Connective) (f : Formula) : (above, f) ∈ f.subformulas above := by
  cases f <;> simp [subformulas]

theorem Simplified.of_subset (simplified : f.Simplified above) (subset : g.subformulas c ⊆ f.subformulas above) :
    g.Simplified c where
  no_parens c h inside := simplified.no_parens c h (subset inside)
  negates_names c h inside := simplified.negates_names c h (subset inside)
  no_literal_operand c op l r inside := simplified.no_literal_operand c op l r (subset inside)
  groups_left c op l r inside := simplified.groups_left c op l r (subset inside)
  distinct c op l r inside := simplified.distinct c op l r (subset inside)
  consistent c op l r inside := simplified.consistent c op l r (subset inside)

theorem Simplified.left (simplified : (binary op l r).Simplified above) : l.Simplified (some op) :=
  simplified.of_subset fun _ member => List.mem_cons_of_mem _ (List.mem_append_left _ member)

theorem Simplified.right (simplified : (binary op l r).Simplified above) : r.Simplified (some op) :=
  simplified.of_subset fun _ member => List.mem_cons_of_mem _ (List.mem_append_right _ member)

/-! ### Simplified formulas are the normal ones -/

theorem Normal.of_mem_subformulas (normal : f.Normal) (inside : (c, g) ∈ f.subformulas above) : g.Normal := by
  induction f generalizing above with
  | binary op left right ihl ihr =>
    rcases List.mem_cons.mp inside with same | below
    · rw [(Prod.mk.inj same).2]
      exact normal
    · rcases List.mem_append.mp below with below | below
      · exact ihl normal.1 below
      · exact ihr normal.2.1 below
  | not operand =>
    obtain ⟨name, rfl⟩ := normal
    simp only [subformulas, List.mem_cons, Prod.mk.injEq, List.not_mem_nil, or_false] at inside
    rcases inside with ⟨-, rfl⟩ | ⟨-, rfl⟩
    · exact ⟨name, rfl⟩
    · exact trivial
  | parens inner => exact normal.elim
  | id name | literal value =>
    rw [(Prod.mk.inj (List.mem_singleton.mp inside)).2]
    exact normal

theorem Normal.simplified (normal : f.Normal) (above : Option Connective) : f.Simplified above where
  no_parens c g inside := normal.of_mem_subformulas inside
  negates_names c g inside := normal.of_mem_subformulas inside
  no_literal_operand c op l r inside := by
    obtain ⟨-, -, left, right, -⟩ := normal.of_mem_subformulas inside
    exact ⟨left, right⟩
  groups_left c op l r inside := (normal.of_mem_subformulas inside).2.2.2.2.1
  distinct c op l r inside _ := ((normal.of_mem_subformulas inside).irredundant op).nodup
  consistent c op l r inside _ := ((normal.of_mem_subformulas inside).irredundant op).consistent

-- A link inside a chain has some of the operands of the chain, so it is as irredundant as the chain.
theorem Simplified.normal (simplified : f.Simplified above)
    (link : ∀ op, above = some op → Irredundant (f.operands op)) : f.Normal := by
  induction f generalizing above with
  | binary op left right ihl ihr =>
    have inside := self_mem_subformulas above (binary op left right)
    have operands : Irredundant ((binary op left right).operands op) := by
      by_cases inner : above = some op
      · exact link op inner
      · exact ⟨simplified.distinct _ _ _ _ inside inner, simplified.consistent _ _ _ _ inside inner⟩
    rw [operands_binary] at operands
    obtain ⟨properLeft, properRight⟩ := simplified.no_literal_operand _ _ _ _ inside
    refine ⟨ihl simplified.left ?_, ihr simplified.right ?_, properLeft, properRight,
      simplified.groups_left _ _ _ _ inside, operands⟩
    · rintro _ ⟨⟩
      exact operands.sublist (List.sublist_append_left _ _)
    · rintro _ ⟨⟩
      exact operands.sublist (List.sublist_append_right _ _)
  | not operand => exact simplified.negates_names _ _ (self_mem_subformulas above _)
  | parens inner => exact simplified.no_parens _ _ (self_mem_subformulas above _)
  | id name | literal value => exact trivial

theorem simplified_iff_normal : f.Simplified none ↔ f.Normal :=
  ⟨fun simplified => simplified.normal (by simp), fun normal => normal.simplified none⟩

/-! ### Simplified formulas are left alone -/

theorem isLiteral_of_literal? (nothing : f.literal? = none) : f.isLiteral = false := by
  cases f with
  | literal value => simp [literal?, peel] at nothing
  | _ => rfl

theorem settled_of_inert (inert : f.Inert Law.builtin above) : f.Settled above := by
  induction f generalizing above with
  | binary op l r ihl ihr =>
    obtain ⟨inertLeft, inertRight, nothing⟩ := inert
    rw [firstDraft_binary, Option.or_eq_none_iff, Law.literalOperand_eq_none_iff,
      Law.chainReduction_eq_none_iff] at nothing
    obtain ⟨⟨noneLeft, noneRight⟩, reduced⟩ := nothing
    have chain : (binary op l r).Settled (some op) := by
      rw [Settled, if_pos rfl]
      exact ⟨ihl inertLeft, ihr inertRight, isLiteral_of_literal? noneLeft, isLiteral_of_literal? noneRight⟩
    rcases reduced with rfl | reduced
    · exact chain
    · rw [formula_reduced (fun x => chain.mem_operands) (fun x => chain.operand_not_literal rfl)] at reduced
      have normal : (binary op l r).resolve.Normal := chain.normal_resolve
      rw [show (binary op l r).resolve = binary op l r from reduced] at normal
      exact normal.settled above
  | not operand ih =>
    obtain ⟨below, nothing⟩ := inert
    have peeled := (ih below).peel
    rw [firstDraft_eq_none_iff] at nothing
    have deMorgan := nothing Law.deMorgan (by simp [Law.builtin])
    have invertLiteral := nothing Law.invertLiteral (by simp [Law.builtin])
    have doubleNegation := nothing Law.doubleNegation (by simp [Law.builtin])
    cases operand with
    | binary op l r => simp [Law.deMorgan, peel] at deMorgan
    | not inner => simp [Law.doubleNegation, peel] at doubleNegation
    | parens inner => exact absurd peeled (peel_ne_parens _ _)
    | id name => exact ⟨name, rfl⟩
    | literal value => simp [Law.invertLiteral, peel] at invertLiteral
  | parens inner =>
    have dropped := firstDraft_eq_none_iff.mp inert.2 Law.dropParens (by simp [Law.builtin])
    simp [Law.dropParens] at dropped
  | id name | literal value => exact trivial

/-- Below no connective, the laws of the library leave exactly the simplified formulas alone. -/
theorem inert_builtin_iff : f.Inert Law.builtin none ↔ f.Simplified none := by
  rw [simplified_iff_normal]
  exact ⟨fun inert => (settled_of_inert inert).normal_of_none, fun normal => (normal.settled none).inert⟩

end Propositional.Formula
