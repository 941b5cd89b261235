import Propositional.Proofs.Formula.Chain

/-!
# The laws of simplification

What each rule of the library does, said of formulas: a law proposes a draft for a formula below a
connective, or nothing. A draft is a tree of new nodes some leaves of which are moved, not made. Every
law keeps the value of the formula and makes it lighter, where `weight` counts what is below a
negation and what is on the right of a connective twice.
-/

namespace Propositional

/-- New nodes above parts that are moved. -/
inductive Draft (α : Type) where
  | moved (part : α)
  | binary (op : Connective) (left right : Draft α)
  | not (operand : Draft α)
  | parens (inner : Draft α)
  | id (name : String)
  | literal (value : Bool)

namespace Draft

variable {α β : Type}

def map (f : α → β) : Draft α → Draft β
  | moved part => moved (f part)
  | binary op left right => binary op (left.map f) (right.map f)
  | not operand => not (operand.map f)
  | parens inner => parens (inner.map f)
  | id name => id name
  | literal value => literal value

def parts : Draft α → List α
  | moved part => [part]
  | binary _ left right => left.parts ++ right.parts
  | not inner | parens inner => inner.parts
  | id _ | literal _ => []

def isMoved : Draft α → Bool
  | moved _ => true
  | _ => false

theorem exists_of_isMoved {d : Draft α} (alone : d.isMoved = true) : ∃ part, d = moved part := by
  cases d with
  | moved part => exact ⟨part, rfl⟩
  | _ => simp [isMoved] at alone

theorem isMoved_map (f : α → β) (d : Draft α) : (d.map f).isMoved = d.isMoved := by cases d <;> rfl

/-- The formula that the draft stands for. -/
def formula : Draft Formula → Formula
  | moved f => f
  | binary op left right => .binary op left.formula right.formula
  | not operand => .not operand.formula
  | parens inner => .parens inner.formula
  | id name => .id name
  | literal value => .literal value

/-- The chain of moved operands that groups to the left. -/
def chain (op : Connective) : List α → Draft α
  | [] => literal op.neutral
  | first :: later => later.foldl (fun d part => binary op d (moved part)) (moved first)

theorem chain_append_singleton {parts : List α} (nonempty : parts ≠ []) (op : Connective) (part : α) :
    chain op (parts ++ [part]) = binary op (chain op parts) (moved part) := by
  cases parts with
  | nil => exact absurd rfl nonempty
  | cons first later => simp [chain]

theorem map_chain (f : α → β) (op : Connective) (parts : List α) :
    (chain op parts).map f = chain op (parts.map f) := by
  induction parts using List.reverseRecOn with
  | nil => rfl
  | append_singleton parts part ih =>
    by_cases empty : parts = []
    · simp [empty, chain, map]
    · rw [chain_append_singleton empty, map, ih, List.map_append, List.map_singleton,
        chain_append_singleton (by simpa using empty), map]

theorem parts_chain (op : Connective) (parts : List α) : (chain op parts).parts = parts := by
  induction parts using List.reverseRecOn with
  | nil => rfl
  | append_singleton parts part ih =>
    by_cases empty : parts = []
    · simp [empty, chain, Draft.parts]
    · rw [chain_append_singleton empty, Draft.parts, ih, Draft.parts]

theorem formula_chain (op : Connective) (fs : List Formula) : (chain op fs).formula = Formula.chain op fs := by
  induction fs using List.reverseRecOn with
  | nil => rfl
  | append_singleton fs f ih =>
    by_cases empty : fs = []
    · simp [empty, chain, Formula.chain, formula]
    · rw [chain_append_singleton empty, Formula.chain_append_singleton empty, formula, ih, formula]

end Draft

/-- Proposes a draft for a formula right below a connective, parentheses aside. -/
abbrev Law := Option Connective → Formula → Option (Draft Formula)

namespace Law

variable {above : Option Connective} {f : Formula} {d : Draft Formula}

def deMorgan : Law
  | _, .not f =>
    match f.peel with
    | .binary op left right => some (.binary op.flip (.not (.moved left)) (.not (.moved right)))
    | _ => none
  | _, _ => none

def invertLiteral : Law
  | _, .not f =>
    match f.peel with
    | .literal value => some (.literal (!value))
    | _ => none
  | _, _ => none

def doubleNegation : Law
  | _, .not f =>
    match f.peel with
    | .not inner => some (.moved inner)
    | _ => none
  | _, _ => none

/-- What is left of a literal and another operand. -/
def absorb {α : Type} (op : Connective) (value : Bool) (other : α) : Draft α :=
  if value = op.neutral then .moved other else .literal op.absorbing

def literalOperand : Law
  | _, .binary op left right =>
    match left.literal?, right.literal? with
    | some value, _ => some (absorb op value right)
    | none, some value => some (absorb op value left)
    | none, none => none
  | _, _ => none

/-- Whether a formula is the negation of one of these, parentheses below the `NOT` aside. -/
def negates (fs : List Formula) : Formula → Bool
  | .not g => fs.contains g.peel
  | _ => false

/-- Whether one of the formulas is the negation of another. -/
def complementary (fs : List Formula) : Bool := fs.any (negates fs)

/-- The chain of some operands without repetitions, unless two of them are complementary. -/
def reduced (op : Connective) (operands : List Formula) : Draft Formula :=
  if complementary operands.eraseDups then .literal op.absorbing else .chain op operands.eraseDups

def chainReduction : Law
  | above, .binary op left right =>
    let d := reduced op ((Formula.binary op left right).operands op)
    if above = some op ∨ d.formula = .binary op left right then none else some d
  | _, _ => none

def dropParens : Law
  | _, .parens inner => some (.moved inner)
  | _, _ => none

/-- The laws of the rules of the library, in their order. -/
def builtin : List Law :=
  [deMorgan, invertLiteral, doubleNegation, literalOperand, chainReduction, dropParens]

theorem complementary_iff {fs : List Formula} :
    complementary fs = true ↔ ∃ g, .not g ∈ fs ∧ g.peel ∈ fs := by
  simp only [complementary, List.any_eq_true]
  constructor
  · rintro ⟨f, member, found⟩
    cases f with
    | not g => exact ⟨g, member, by simpa [negates] using found⟩
    | _ => simp [negates] at found
  · rintro ⟨g, negation, plain⟩
    exact ⟨.not g, negation, by simpa [negates] using plain⟩

/-! ### What the laws propose -/

theorem deMorgan_eq_some (drafted : deMorgan above f = some d) : ∃ g op left right,
    f = .not g ∧ g.peel = .binary op left right ∧
      d = .binary op.flip (.not (.moved left)) (.not (.moved right)) := by
  unfold deMorgan at drafted
  split at drafted
  · rename_i g
    split at drafted
    · rename_i op left right peeled
      exact ⟨g, op, left, right, rfl, peeled, (Option.some.inj drafted).symm⟩
    · simp at drafted
  · simp at drafted

theorem invertLiteral_eq_some (drafted : invertLiteral above f = some d) : ∃ g value,
    f = .not g ∧ g.peel = .literal value ∧ d = .literal (!value) := by
  unfold invertLiteral at drafted
  split at drafted
  · rename_i g
    split at drafted
    · rename_i value peeled
      exact ⟨g, value, rfl, peeled, (Option.some.inj drafted).symm⟩
    · simp at drafted
  · simp at drafted

theorem doubleNegation_eq_some (drafted : doubleNegation above f = some d) : ∃ g inner,
    f = .not g ∧ g.peel = .not inner ∧ d = .moved inner := by
  unfold doubleNegation at drafted
  split at drafted
  · rename_i g
    split at drafted
    · rename_i inner peeled
      exact ⟨g, inner, rfl, peeled, (Option.some.inj drafted).symm⟩
    · simp at drafted
  · simp at drafted

theorem literalOperand_eq_some (drafted : literalOperand above f = some d) : ∃ op left right value,
    f = .binary op left right ∧
      (left.peel = .literal value ∧ d = absorb op value right ∨
        right.peel = .literal value ∧ d = absorb op value left) := by
  unfold literalOperand at drafted
  split at drafted
  · rename_i op left right
    split at drafted
    · rename_i value found
      exact ⟨op, left, right, value, rfl,
        .inl ⟨Formula.literal?_eq_some_iff.mp found, (Option.some.inj drafted).symm⟩⟩
    · rename_i value _ found
      exact ⟨op, left, right, value, rfl,
        .inr ⟨Formula.literal?_eq_some_iff.mp found, (Option.some.inj drafted).symm⟩⟩
    · simp at drafted
  · simp at drafted

theorem chainReduction_eq_some (drafted : chainReduction above f = some d) : ∃ op left right,
    f = .binary op left right ∧ above ≠ some op ∧ d = reduced op (f.operands op) ∧ d.formula ≠ f := by
  unfold chainReduction at drafted
  split at drafted
  · rename_i op left right
    dsimp only at drafted
    split at drafted
    · simp at drafted
    · rename_i kept
      obtain rfl := Option.some.inj drafted
      rw [not_or] at kept
      exact ⟨op, left, right, rfl, kept.1, rfl, kept.2⟩
  · simp at drafted

theorem dropParens_eq_some (drafted : dropParens above f = some d) : ∃ g, f = .parens g ∧ d = .moved g := by
  unfold dropParens at drafted
  split at drafted
  · exact ⟨_, rfl, (Option.some.inj drafted).symm⟩
  · simp at drafted

/-! ### Values -/

theorem eval_absorb (σ : String → Bool) (op : Connective) (value : Bool) (other : Formula) :
    (absorb op value other).formula.eval σ = op.apply value (other.eval σ) := by
  unfold absorb
  split
  · rename_i neutral
    rw [neutral, Connective.apply_neutral]
    rfl
  · rename_i different
    rw [Connective.eq_absorbing_of_ne_neutral different, Connective.apply_absorbing]
    rfl

theorem eval_reduced (σ : String → Bool) (op : Connective) (f : Formula) :
    (reduced op (f.operands op)).formula.eval σ = f.eval σ := by
  unfold reduced
  split
  · rename_i complements
    obtain ⟨g, negation, plain⟩ := complementary_iff.mp complements
    rw [List.mem_eraseDups] at negation plain
    exact (Formula.eval_eq_absorbing_of_complements negation plain).symm
  · rw [Draft.formula_chain]
    exact Formula.eval_chain_of_mem_iff (fun g => List.mem_eraseDups)

/-- Every law keeps the value of a formula. -/
theorem eval_of_mem_builtin {law : Law} (member : law ∈ builtin) (drafted : law above f = some d)
    (σ : String → Bool) : d.formula.eval σ = f.eval σ := by
  simp only [builtin, List.mem_cons, List.not_mem_nil, or_false] at member
  rcases member with rfl | rfl | rfl | rfl | rfl | rfl
  · obtain ⟨g, op, left, right, rfl, peeled, rfl⟩ := deMorgan_eq_some drafted
    rw [Formula.eval, ← Formula.eval_peel σ g, peeled, Formula.eval, Connective.not_apply]
    rfl
  · obtain ⟨g, value, rfl, peeled, rfl⟩ := invertLiteral_eq_some drafted
    rw [Formula.eval, ← Formula.eval_peel σ g, peeled]
    rfl
  · obtain ⟨g, inner, rfl, peeled, rfl⟩ := doubleNegation_eq_some drafted
    rw [Formula.eval, ← Formula.eval_peel σ g, peeled, Formula.eval, Bool.not_not]
    rfl
  · obtain ⟨op, left, right, value, rfl, ⟨peeled, rfl⟩ | ⟨peeled, rfl⟩⟩ := literalOperand_eq_some drafted
    · rw [eval_absorb, Formula.eval, ← Formula.eval_peel σ left, peeled, Formula.eval]
    · rw [eval_absorb, Formula.eval, ← Formula.eval_peel σ right, peeled, Formula.eval,
        Connective.apply_comm]
  · obtain ⟨op, left, right, -, -, rfl, -⟩ := chainReduction_eq_some drafted
    exact eval_reduced σ op f
  · obtain ⟨g, rfl, rfl⟩ := dropParens_eq_some drafted
    rfl

end Law

end Propositional
