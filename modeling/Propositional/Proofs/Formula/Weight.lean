import Propositional.Proofs.Formula.Law

/-!
# The weight of a formula

Each law makes a formula lighter. Pushing a negation inwards saves the connective once, grouping to
the left saves what was grouped to the right, and everything else drops nodes. A formula of `n` nodes
weighs at most `2 ^ n`.
-/

namespace Propositional

namespace Formula

variable {op : Connective} {f g : Formula} {fs gs : List Formula}

/-- What is below a negation or on the right of a connective counts twice. -/
def weight : Formula → Nat
  | binary _ left right => left.weight + 2 * right.weight + 1
  | not operand => 2 * operand.weight
  | parens inner => inner.weight + 1
  | id _ | literal _ => 1

theorem weight_pos (f : Formula) : 0 < f.weight := by
  induction f <;> simp only [weight] <;> omega

theorem weight_peel_le (f : Formula) : f.peel.weight ≤ f.weight := by
  induction f with
  | parens inner ih => exact Nat.le_succ_of_le ih
  | _ => exact Nat.le_refl _

/-! ### Chains -/

/-- The weight of the operands after the first. -/
def laterWeight (fs : List Formula) : Nat := (fs.map fun f => 2 * f.weight + 1).sum

theorem weight_chain_cons (op : Connective) (f : Formula) (fs : List Formula) :
    (chain op (f :: fs)).weight = f.weight + laterWeight fs := by
  induction fs using List.reverseRecOn with
  | nil => simp [chain, laterWeight]
  | append_singleton fs g ih =>
    rw [← List.cons_append, chain_append_singleton (by simp), weight, ih]
    simp [laterWeight]
    omega

theorem weight_chain_append_singleton (nonempty : fs ≠ []) (op : Connective) (g : Formula) :
    (chain op (fs ++ [g])).weight = (chain op fs).weight + 2 * g.weight + 1 := by
  rw [chain_append_singleton nonempty, weight]

theorem weight_chain_append_le (left : fs ≠ []) (right : gs ≠ []) (op : Connective) :
    (chain op (fs ++ gs)).weight ≤ (chain op fs).weight + 2 * (chain op gs).weight + 1 ∧
      ((chain op (fs ++ gs)).weight = (chain op fs).weight + 2 * (chain op gs).weight + 1 →
        ∃ g, gs = [g]) := by
  induction gs using List.reverseRecOn with
  | nil => exact absurd rfl right
  | append_singleton gs g ih =>
    by_cases empty : gs = []
    · subst empty
      rw [List.nil_append, weight_chain_append_singleton left]
      exact ⟨Nat.le_refl _, fun _ => ⟨g, rfl⟩⟩
    · have shorter := (ih empty).1
      have both : fs ++ gs ≠ [] := by simp [left]
      have first := weight_chain_append_singleton both op g
      have second := weight_chain_append_singleton empty op g
      rw [← List.append_assoc]
      omega

/-- Regrouping a chain to the left never adds weight, and leaves the weight only if there is nothing
to regroup. -/
theorem weight_chain_operands_le (op : Connective) (f : Formula) :
    (chain op (f.operands op)).weight ≤ f.weight ∧
      ((chain op (f.operands op)).weight = f.weight → chain op (f.operands op) = f) := by
  induction f with
  | parens inner ih =>
    have below := ih.1
    simp only [operands, weight]
    omega
  | binary op' left right ihl ihr =>
    by_cases same : op' = op
    · subst same
      have joined := weight_chain_append_le (operands_ne_nil op' left) (operands_ne_nil op' right) op'
      rw [operands_binary, weight]
      refine ⟨by omega, fun equal => ?_⟩
      obtain ⟨g, alone⟩ := joined.2 (by omega)
      have leftSame := ihl.2 (by omega)
      have rightSame := ihr.2 (by omega)
      rw [alone] at rightSame
      rw [alone, chain_append_singleton (operands_ne_nil op' left), leftSame]
      exact congrArg (binary op' left) rightSame
    · simp [operands, same, chain]
  | _ => exact ⟨Nat.le_refl _, fun _ => rfl⟩

theorem laterWeight_le_of_sublist (sublist : gs.Sublist fs) :
    laterWeight gs ≤ laterWeight fs ∧ (laterWeight gs = laterWeight fs → gs = fs) := by
  induction sublist with
  | slnil => simp
  | cons f _ ih =>
    simp only [laterWeight, List.map_cons, List.sum_cons] at ih ⊢
    omega
  | cons_cons f _ ih =>
    simp only [laterWeight, List.map_cons, List.sum_cons, List.cons.injEq, true_and] at ih ⊢
    exact ⟨by omega, fun equal => ih.2 (by omega)⟩

theorem weight_chain_le_of_sublist (sublist : gs.Sublist fs) (nonempty : gs ≠ []) (op : Connective) :
    (chain op gs).weight ≤ (chain op fs).weight ∧
      ((chain op gs).weight = (chain op fs).weight → gs = fs) := by
  induction sublist with
  | slnil => exact absurd rfl nonempty
  | @cons gs fs f rest ih =>
    have kept := (ih nonempty).1
    cases fs with
    | nil => exact absurd (List.sublist_nil.mp rest) nonempty
    | cons g later =>
      have positive := g.weight_pos
      rw [weight_chain_cons] at kept
      rw [weight_chain_cons op f]
      simp only [laterWeight, List.map_cons, List.sum_cons] at kept ⊢
      omega
  | @cons_cons gs fs f rest _ =>
    have later := laterWeight_le_of_sublist rest
    rw [weight_chain_cons, weight_chain_cons, List.cons.injEq]
    exact ⟨by omega, fun equal => ⟨rfl, later.2 (by omega)⟩⟩

end Formula

namespace Law

variable {above : Option Connective} {f : Formula} {d : Draft Formula}

theorem weight_absorb_lt (op : Connective) (value : Bool) (other : Formula) {n : Nat} (positive : 0 < n) :
    (absorb op value other).formula.weight < other.weight + n := by
  have heavy := other.weight_pos
  unfold absorb
  split <;> simp only [Draft.formula, Formula.weight] <;> omega

theorem weight_reduced_lt {op : Connective} (top : f.head? = some op)
    (changed : (reduced op (f.operands op)).formula ≠ f) :
    (reduced op (f.operands op)).formula.weight < f.weight := by
  have nonempty : (f.operands op).eraseDups ≠ [] := eraseDups_ne_nil (Formula.operands_ne_nil op f)
  have dropped := Formula.weight_chain_le_of_sublist (eraseDups_sublist (f.operands op)) nonempty op
  have grouped := Formula.weight_chain_operands_le op f
  revert changed
  unfold reduced
  split
  · intro _
    cases f with
    | binary op' left right =>
      have heavyLeft := left.weight_pos
      simp only [Draft.formula, Formula.weight]
      omega
    | _ => simp [Formula.head?] at top
  · rw [Draft.formula_chain]
    intro changed
    refine Nat.lt_of_le_of_ne (Nat.le_trans dropped.1 grouped.1) ?_
    intro equal
    have same := dropped.2 (by omega)
    rw [same] at changed equal
    exact changed (grouped.2 equal)

/-- Every law makes a formula lighter. -/
theorem weight_of_mem_builtin {law : Law} (member : law ∈ builtin) (drafted : law above f = some d) :
    d.formula.weight < f.weight := by
  simp only [builtin, List.mem_cons, List.not_mem_nil, or_false] at member
  rcases member with rfl | rfl | rfl | rfl | rfl | rfl
  · obtain ⟨g, op, left, right, rfl, peeled, rfl⟩ := deMorgan_eq_some drafted
    have lighter := g.weight_peel_le
    rw [peeled] at lighter
    simp only [Draft.formula, Formula.weight] at lighter ⊢
    omega
  · obtain ⟨g, value, rfl, -, rfl⟩ := invertLiteral_eq_some drafted
    have heavy := g.weight_pos
    simp only [Draft.formula, Formula.weight]
    omega
  · obtain ⟨g, inner, rfl, peeled, rfl⟩ := doubleNegation_eq_some drafted
    have lighter := g.weight_peel_le
    have heavy := inner.weight_pos
    rw [peeled] at lighter
    simp only [Draft.formula, Formula.weight] at lighter ⊢
    omega
  · obtain ⟨op, left, right, value, rfl, ⟨-, rfl⟩ | ⟨-, rfl⟩⟩ := literalOperand_eq_some drafted
    · have lighter := weight_absorb_lt op value right (n := left.weight + right.weight + 1) (by omega)
      simp only [Formula.weight]
      omega
    · have lighter := weight_absorb_lt op value left (n := 2 * right.weight + 1) (by omega)
      simp only [Formula.weight]
      omega
  · obtain ⟨op, left, right, rfl, -, rfl, changed⟩ := chainReduction_eq_some drafted
    exact weight_reduced_lt rfl changed
  · obtain ⟨g, rfl, rfl⟩ := dropParens_eq_some drafted
    exact Nat.lt_succ_self _

end Law

end Propositional
