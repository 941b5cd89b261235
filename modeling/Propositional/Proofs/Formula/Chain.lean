import Mathlib
import Propositional.Formula

/-!
# Chains of formulas

The operands of a chain decide its value: it is the absorbing literal exactly if one of the operands
has that value. So a chain may be regrouped, and an operand that occurs twice may be dropped.
-/

namespace Propositional

theorem Connective.eq_absorbing_of_ne_neutral {op : Connective} {value : Bool} (other : value ≠ op.neutral) :
    value = op.absorbing := by
  revert other
  cases op <;> cases value <;> decide

section FirstOccurrences

variable {α : Type} [DecidableEq α] {xs : List α}

theorem eraseDups_append_singleton (xs : List α) (x : α) :
    (xs ++ [x]).eraseDups = if x ∈ xs then xs.eraseDups else xs.eraseDups ++ [x] := by
  rw [List.eraseDups_append]
  split <;> rename_i member <;> simp [List.removeAll, member, List.eraseDups_cons]

theorem eraseDups_sublist (xs : List α) : xs.eraseDups.Sublist xs := by
  induction xs using List.reverseRecOn with
  | nil => simp
  | append_singleton xs x ih =>
    rw [eraseDups_append_singleton]
    split
    · exact ih.trans (List.sublist_append_left xs [x])
    · exact ih.append (List.Sublist.refl [x])

theorem eraseDups_ne_nil (nonempty : xs ≠ []) : xs.eraseDups ≠ [] := by
  cases xs with
  | nil => exact absurd rfl nonempty
  | cons x later => simp [List.eraseDups_cons]

theorem nodup_eraseDups (xs : List α) : xs.eraseDups.Nodup := by
  induction xs using List.reverseRecOn with
  | nil => simp
  | append_singleton xs x ih =>
    rw [eraseDups_append_singleton]
    split
    · exact ih
    · rename_i absent
      refine ih.append (List.nodup_singleton x) ?_
      simpa [List.disjoint_singleton, List.mem_eraseDups] using absent

theorem eraseDups_of_nodup (nodup : xs.Nodup) : xs.eraseDups = xs := by
  induction xs using List.reverseRecOn with
  | nil => rfl
  | append_singleton xs x ih =>
    rw [List.nodup_append] at nodup
    have absent : x ∉ xs := fun member => nodup.2.2 x member x (by simp) rfl
    rw [eraseDups_append_singleton, if_neg absent, ih nodup.1]

theorem filter_eraseDups (p : α → Bool) (xs : List α) : xs.eraseDups.filter p = (xs.filter p).eraseDups := by
  induction xs using List.reverseRecOn with
  | nil => rfl
  | append_singleton xs x ih =>
    by_cases member : x ∈ xs <;> by_cases passes : p x <;>
      simp [eraseDups_append_singleton, List.filter_append, member, passes, ih]

theorem eraseDups_eraseDups_append (xs ys : List α) : (xs.eraseDups ++ ys).eraseDups = (xs ++ ys).eraseDups := by
  rw [List.eraseDups_append, List.eraseDups_append, eraseDups_of_nodup (nodup_eraseDups xs)]
  simp [List.removeAll, List.elem_eq_contains, List.mem_eraseDups]

theorem eraseDups_append_eraseDups (xs ys : List α) : (xs ++ ys.eraseDups).eraseDups = (xs ++ ys).eraseDups := by
  rw [List.eraseDups_append, List.eraseDups_append, List.removeAll, List.removeAll, filter_eraseDups,
    eraseDups_of_nodup (nodup_eraseDups _)]
end FirstOccurrences

namespace Formula

variable {σ : String → Bool} {op : Connective} {f g : Formula} {fs gs : List Formula}

/-- The formula inside its outermost parentheses. -/
def peel : Formula → Formula
  | parens inner => inner.peel
  | f => f

/-- The operands of the chain of `op` at the top, without the parentheses around them. -/
def operands (op : Connective) : Formula → List Formula
  | parens inner => inner.operands op
  | binary op' left right =>
    if op' = op then left.operands op ++ right.operands op else [binary op' left right]
  | f => [f]

/-- The chain of some operands that groups to the left. -/
def chain (op : Connective) : List Formula → Formula
  | [] => literal op.neutral
  | first :: later => later.foldl (binary op) first

def head? : Formula → Option Connective
  | binary op _ _ => some op
  | _ => none

/-- The literal that the formula is inside its parentheses, if it is one. -/
def literal? (f : Formula) : Option Bool :=
  match f.peel with
  | literal value => some value
  | _ => none

theorem literal?_eq_some_iff {value : Bool} : f.literal? = some value ↔ f.peel = literal value := by
  unfold literal?
  cases f.peel <;> simp

@[simp] theorem eval_peel (σ : String → Bool) (f : Formula) : f.peel.eval σ = f.eval σ := by
  induction f with
  | parens inner ih => exact ih
  | _ => rfl

theorem peel_ne_parens (f g : Formula) : f.peel ≠ parens g := by
  induction f with
  | parens inner ih => exact ih
  | _ => simp [peel]

@[simp] theorem operands_binary (op : Connective) (left right : Formula) :
    (binary op left right).operands op = left.operands op ++ right.operands op := by
  simp [operands]

theorem operands_eq_singleton (other : f.peel.head? ≠ some op) : f.operands op = [f.peel] := by
  induction f with
  | parens inner ih => exact ih other
  | binary op' left right =>
    have different : op' ≠ op := fun same => other (congrArg some same)
    simp [operands, peel, different]
  | _ => rfl

theorem operands_ne_nil (op : Connective) (f : Formula) : f.operands op ≠ [] := by
  induction f with
  | parens inner ih => exact ih
  | binary op' left right ihl ihr =>
    rw [operands]
    split
    · simp [ihl]
    · simp
  | _ => simp [operands]

theorem peeled_of_mem_operands (member : g ∈ f.operands op) : g.peel = g ∧ g.head? ≠ some op := by
  induction f with
  | parens inner ih => exact ih member
  | binary op' left right ihl ihr =>
    rw [operands] at member
    split at member
    · rcases List.mem_append.mp member with member | member
      · exact ihl member
      · exact ihr member
    · rename_i different
      obtain rfl := List.mem_singleton.mp member
      exact ⟨rfl, fun same => different (Option.some.inj same)⟩
  | not | id | literal =>
    obtain rfl := List.mem_singleton.mp member
    exact ⟨rfl, by simp [head?]⟩

/-! ### Chains that group to the left -/

theorem chain_append_singleton (nonempty : fs ≠ []) (g : Formula) :
    chain op (fs ++ [g]) = binary op (chain op fs) g := by
  cases fs with
  | nil => exact absurd rfl nonempty
  | cons first later => simp [chain]

theorem operands_chain (nonempty : fs ≠ []) (op : Connective) :
    (chain op fs).operands op = fs.flatMap (operands op) := by
  induction fs using List.reverseRecOn with
  | nil => exact absurd rfl nonempty
  | append_singleton fs g ih =>
    by_cases empty : fs = []
    · simp [empty, chain]
    · rw [chain_append_singleton empty, operands_binary, ih empty]
      simp

theorem operands_chain_of_operands (nonempty : fs ≠ [])
    (peeled : ∀ f ∈ fs, f.peel = f ∧ f.head? ≠ some op) : (chain op fs).operands op = fs := by
  rw [operands_chain nonempty]
  have alone : ∀ f ∈ fs, f.operands op = [f] := by
    intro f member
    have ⟨same, other⟩ := peeled f member
    rw [operands_eq_singleton (by rw [same]; exact other), same]
  rw [List.flatMap_congr alone]
  simp

/-! ### Values -/

theorem apply_eq_absorbing_iff (op : Connective) (a b : Bool) :
    op.apply a b = op.absorbing ↔ a = op.absorbing ∨ b = op.absorbing := by
  cases op <;> cases a <;> cases b <;> decide

theorem eval_eq_absorbing_iff (σ : String → Bool) (op : Connective) (f : Formula) :
    f.eval σ = op.absorbing ↔ ∃ g ∈ f.operands op, g.eval σ = op.absorbing := by
  induction f with
  | parens inner ih => exact ih
  | binary op' left right ihl ihr =>
    rw [operands]
    split
    · rename_i same
      subst same
      rw [eval, apply_eq_absorbing_iff, ihl, ihr]
      simp [or_and_right, exists_or]
    · simp
  | _ => simp [operands]

theorem eval_chain_eq_absorbing_iff (σ : String → Bool) (op : Connective) (fs : List Formula) :
    (chain op fs).eval σ = op.absorbing ↔ ∃ f ∈ fs, f.eval σ = op.absorbing := by
  induction fs using List.reverseRecOn with
  | nil => cases op <;> simp [chain, eval, Connective.neutral, Connective.absorbing]
  | append_singleton fs g ih =>
    by_cases empty : fs = []
    · simp [empty, chain]
    · rw [chain_append_singleton empty, eval, apply_eq_absorbing_iff, ih]
      simp [or_and_right, exists_or]

theorem eq_of_eq_iff {a b c : Bool} (same : a = c ↔ b = c) : a = b := by
  revert same
  cases a <;> cases b <;> cases c <;> simp

/-- The value of a chain depends only on which operands it has. -/
theorem eval_chain_of_mem_iff (same : ∀ g, g ∈ fs ↔ g ∈ f.operands op) :
    (chain op fs).eval σ = f.eval σ := by
  apply eq_of_eq_iff (c := op.absorbing)
  rw [eval_chain_eq_absorbing_iff, eval_eq_absorbing_iff]
  simp only [same]

theorem eval_eq_absorbing_of_complements {g : Formula} (negation : .not g ∈ f.operands op)
    (plain : g.peel ∈ f.operands op) : f.eval σ = op.absorbing := by
  rw [eval_eq_absorbing_iff]
  by_cases value : g.eval σ = op.absorbing
  · exact ⟨g.peel, plain, by rw [eval_peel, value]⟩
  · refine ⟨.not g, negation, ?_⟩
    rw [eval]
    revert value
    cases g.eval σ <;> cases op.absorbing <;> simp

end Formula

end Propositional
