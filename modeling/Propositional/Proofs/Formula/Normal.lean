import Propositional.Proofs.Formula.Chain

/-!
# Normal forms

The normal form of a formula has no parentheses and negates nothing but names. It is computed from the
normal forms of the parts: a negation turns the normal form into its dual, and a connective joins the
operands of both sides, drops what a chain can drop, and groups the rest to the left.

How operands are bracketed does not matter to `reduce`: a reduced chain in the place of its operands
leads to the same result.
-/

namespace Propositional.Formula

variable {op : Connective} {f g x : Formula} {xs ys : List Formula}

def isLiteral : Formula → Bool
  | literal _ => true
  | _ => false

/-- The formula with everything exchanged for its opposite. -/
def dual : Formula → Formula
  | binary op left right => binary op.flip left.dual right.dual
  | not operand => operand
  | parens inner => inner.dual
  | id name => not (id name)
  | literal value => literal (!value)

/-- The operands of a chain that are left without neutral literals and repetitions. -/
def survivors (op : Connective) (xs : List Formula) : List Formula :=
  (xs.filter fun x => x ≠ literal op.neutral).eraseDups

/-- The chain of some operands: the absorbing literal if it is one of them, otherwise the survivors,
unless two of them are opposites. -/
def reduce (op : Connective) (xs : List Formula) : Formula :=
  if literal op.absorbing ∈ xs then literal op.absorbing
  else if ∃ x ∈ survivors op xs, not x ∈ survivors op xs then literal op.absorbing
  else chain op (survivors op xs)

/-- The normal form. -/
def nf : Formula → Formula
  | binary op left right => reduce op (left.nf.operands op ++ right.nf.operands op)
  | not operand => operand.nf.dual
  | parens inner => inner.nf
  | id name => id name
  | literal value => literal value

/-! ### Reducing operands -/

theorem mem_survivors : x ∈ survivors op xs ↔ x ∈ xs ∧ x ≠ literal op.neutral := by
  simp [survivors, List.mem_eraseDups]

/-- The chain is constant, whatever its other operands are. -/
def Decided (op : Connective) (xs : List Formula) : Prop :=
  literal op.absorbing ∈ xs ∨ ∃ x ∈ survivors op xs, not x ∈ survivors op xs

theorem Decided.mono (decided : Decided op xs) (subset : xs ⊆ ys) : Decided op ys := by
  rcases decided with absorbing | ⟨x, plain, negated⟩
  · exact Or.inl (subset absorbing)
  · rw [mem_survivors] at plain negated
    exact Or.inr ⟨x, mem_survivors.mpr ⟨subset plain.1, plain.2⟩, mem_survivors.mpr ⟨subset negated.1, negated.2⟩⟩

theorem reduce_of_decided (decided : Decided op xs) : reduce op xs = literal op.absorbing := by
  unfold reduce
  rcases decided with absorbing | opposites
  · rw [if_pos absorbing]
  · rw [if_pos opposites, ite_self]

theorem reduce_of_not_decided (undecided : ¬ Decided op xs) : reduce op xs = chain op (survivors op xs) := by
  rw [Decided, not_or] at undecided
  rw [reduce, if_neg undecided.1, if_neg undecided.2]

theorem absorbing_ne_neutral (op : Connective) : literal op.absorbing ≠ literal op.neutral := by
  cases op <;> decide

theorem reduce_congr (same : survivors op xs = survivors op ys) : reduce op xs = reduce op ys := by
  have survives : ∀ zs, literal op.absorbing ∈ survivors op zs ↔ literal op.absorbing ∈ zs := by
    intro zs
    rw [mem_survivors, and_iff_left (absorbing_ne_neutral op)]
  have absorbing : literal op.absorbing ∈ xs ↔ literal op.absorbing ∈ ys := by
    rw [← survives xs, same, survives ys]
  unfold reduce
  rw [same]
  simp only [absorbing]

/-- The operands can be told apart from the chain: none is a chain of the same connective itself. -/
def Operands (op : Connective) (xs : List Formula) : Prop := ∀ x ∈ xs, x.peel = x ∧ x.head? ≠ some op

theorem survivors_operands_chain (operands : Operands op xs) :
    ((chain op (survivors op xs)).operands op).filter (fun x => x ≠ literal op.neutral) = survivors op xs := by
  have kept : ∀ x ∈ survivors op xs, x ≠ literal op.neutral := fun x member => (mem_survivors.mp member).2
  by_cases empty : survivors op xs = []
  · simp [empty, chain, Formula.operands]
  · rw [operands_chain_of_operands empty (fun x member => operands x (mem_survivors.mp member).1)]
    exact List.filter_eq_self.mpr (by simpa using kept)

/-- A reduced chain may stand for its operands. -/
theorem reduce_operands_reduce (operands : Operands op xs) (before after : List Formula) :
    reduce op (before ++ (reduce op xs).operands op ++ after) = reduce op (before ++ xs ++ after) := by
  by_cases decided : Decided op xs
  · have inside : Decided op (before ++ (reduce op xs).operands op ++ after) := by
      left
      simp [reduce_of_decided decided, Formula.operands]
    have wider : Decided op (before ++ xs ++ after) := decided.mono (by intro x member; simp [member])
    rw [reduce_of_decided inside, reduce_of_decided wider]
  · apply reduce_congr
    have inner := survivors_operands_chain operands
    rw [reduce_of_not_decided decided]
    unfold survivors at inner ⊢
    rw [List.filter_append, List.filter_append, inner, List.filter_append, List.filter_append,
      ← eraseDups_eraseDups_append, eraseDups_append_eraseDups, eraseDups_eraseDups_append]

theorem reduce_neutral_cons (op : Connective) (xs : List Formula) :
    reduce op (literal op.neutral :: xs) = reduce op xs := by
  apply reduce_congr
  simp [survivors]

theorem reduce_append_neutral (op : Connective) (xs : List Formula) :
    reduce op (xs ++ [literal op.neutral]) = reduce op xs := by
  apply reduce_congr
  simp [survivors, List.filter_append]

theorem reduce_append_literal (op : Connective) (value : Bool) (xs : List Formula) :
    reduce op (xs ++ [literal value]) = reduce op (literal value :: xs) := by
  by_cases neutral : value = op.neutral
  · rw [neutral, reduce_append_neutral, reduce_neutral_cons]
  · obtain rfl := Connective.eq_absorbing_of_ne_neutral neutral
    rw [reduce_of_decided (Or.inl (by simp)), reduce_of_decided (Or.inl (by simp))]

/-! ### Normal formulas -/

/-- The operands are pairwise different and no two of them are opposites. -/
structure Irredundant (xs : List Formula) : Prop where
  nodup : xs.Nodup
  consistent : ∀ x ∈ xs, not x ∉ xs

/-- Nothing in the formula can be simplified. -/
def Normal : Formula → Prop
  | binary op left right =>
    left.Normal ∧ right.Normal ∧ left.isLiteral = false ∧ right.isLiteral = false ∧
      right.head? ≠ some op ∧ Irredundant (left.operands op ++ right.operands op)
  | not operand => ∃ name, operand = id name
  | parens _ => False
  | id _ | literal _ => True

theorem Normal.peel (normal : f.Normal) : f.peel = f := by
  cases f with
  | parens inner => exact normal.elim
  | _ => rfl

theorem Normal.operands_of_head_ne (normal : f.Normal) (other : f.head? ≠ some op) : f.operands op = [f] := by
  have alone := operands_eq_singleton (f := f) (normal.peel.symm ▸ other)
  rw [alone, normal.peel]

theorem head?_eq_some_iff : f.head? = some op ↔ ∃ left right, f = binary op left right := by
  cases f with
  | binary op' left right => simp [head?]
  | _ => simp [head?]

theorem Normal.mem_operands (normal : f.Normal) (member : x ∈ f.operands op) : x.Normal := by
  induction f with
  | binary op' left right ihl ihr =>
    rw [Formula.operands] at member
    split at member
    · rcases List.mem_append.mp member with member | member
      · exact ihl normal.1 member
      · exact ihr normal.2.1 member
    · rw [List.mem_singleton.mp member]
      exact normal
  | parens inner => exact normal.elim
  | _ =>
    rw [List.mem_singleton.mp member]
    exact normal

theorem Normal.operand_not_literal (normal : f.Normal) (proper : f.isLiteral = false)
    (member : x ∈ f.operands op) : x.isLiteral = false := by
  induction f with
  | binary op' left right ihl ihr =>
    obtain ⟨normalLeft, normalRight, properLeft, properRight, -⟩ := normal
    rw [Formula.operands] at member
    split at member
    · rcases List.mem_append.mp member with member | member
      · exact ihl normalLeft properLeft member
      · exact ihr normalRight properRight member
    · rw [List.mem_singleton.mp member]
      rfl
  | parens inner => exact normal.elim
  | _ =>
    rw [List.mem_singleton.mp member]
    exact proper

theorem irredundant_singleton (x : Formula) : Irredundant [x] := by
  refine ⟨List.nodup_singleton x, fun y member negated => ?_⟩
  rw [List.mem_singleton] at member negated
  have sizes := congrArg sizeOf (negated.trans member.symm)
  simp at sizes

theorem Normal.irredundant (normal : f.Normal) (op : Connective) : Irredundant (f.operands op) := by
  by_cases head : f.head? = some op
  · obtain ⟨left, right, rfl⟩ := head?_eq_some_iff.mp head
    rw [operands_binary]
    exact normal.2.2.2.2.2
  · rw [normal.operands_of_head_ne head]
    exact irredundant_singleton f

theorem Normal.chain_operands (normal : f.Normal) (op : Connective) : chain op (f.operands op) = f := by
  induction f with
  | binary op' left right ihl ihr =>
    by_cases same : op' = op
    · subst same
      obtain ⟨normalLeft, normalRight, -, -, other, -⟩ := normal
      rw [operands_binary, normalRight.operands_of_head_ne other,
        chain_append_singleton (operands_ne_nil op' left), ihl normalLeft]
    · rw [normal.operands_of_head_ne (by simp [head?, same])]
      rfl
  | parens inner => exact normal.elim
  | _ => rfl

theorem survivors_of_proper (proper : ∀ x ∈ xs, x.isLiteral = false) : survivors op xs = xs.eraseDups := by
  have all : xs.filter (fun x => x ≠ literal op.neutral) = xs := by
    refine List.filter_eq_self.mpr fun x member => ?_
    have kept := proper x member
    cases x <;> simp_all [isLiteral]
  rw [survivors, all]

theorem reduce_of_irredundant (irredundant : Irredundant xs) (proper : ∀ x ∈ xs, x.isLiteral = false) :
    reduce op xs = chain op xs := by
  have same : survivors op xs = xs := by rw [survivors_of_proper proper, eraseDups_of_nodup irredundant.nodup]
  have undecided : ¬ Decided op xs := by
    rintro (absorbing | ⟨x, plain, negated⟩)
    · simpa [isLiteral] using proper _ absorbing
    · rw [same] at plain negated
      exact irredundant.consistent x plain negated
  rw [reduce_of_not_decided undecided, same]

theorem Normal.reduce_operands (normal : f.Normal) (op : Connective) : reduce op (f.operands op) = f := by
  by_cases proper : f.isLiteral = false
  · rw [reduce_of_irredundant (normal.irredundant op) (fun x => normal.operand_not_literal proper),
      normal.chain_operands]
  · cases f with
    | literal value => cases op <;> cases value <;> rfl
    | _ => simp [isLiteral] at proper

theorem Irredundant.sublist (irredundant : Irredundant xs) (sublist : ys.Sublist xs) : Irredundant ys :=
  ⟨irredundant.nodup.sublist sublist,
    fun x member negated => irredundant.consistent x (sublist.subset member) (sublist.subset negated)⟩

theorem isLiteral_chain (proper : ∀ x ∈ xs, x.isLiteral = false) (nonempty : xs ≠ []) :
    (chain op xs).isLiteral = false := by
  induction xs using List.reverseRecOn with
  | nil => exact absurd rfl nonempty
  | append_singleton xs x ih =>
    by_cases empty : xs = []
    · subst empty
      exact proper x (by simp)
    · rw [chain_append_singleton empty]
      rfl

theorem normal_chain (normal : ∀ x ∈ xs, x.Normal) (other : ∀ x ∈ xs, x.head? ≠ some op)
    (proper : ∀ x ∈ xs, x.isLiteral = false) (irredundant : Irredundant xs) : (chain op xs).Normal := by
  induction xs using List.reverseRecOn with
  | nil => exact trivial
  | append_singleton xs x ih =>
    by_cases empty : xs = []
    · subst empty
      exact normal x (by simp)
    · have last : x ∈ xs ++ [x] := by simp
      have front : ∀ y ∈ xs, y ∈ xs ++ [x] := fun y member => List.mem_append_left _ member
      have peeled : ∀ y ∈ xs, y.peel = y ∧ y.head? ≠ some op :=
        fun y member => ⟨(normal y (front y member)).peel, other y (front y member)⟩
      rw [chain_append_singleton empty]
      refine ⟨ih (fun y member => normal y (front y member)) (fun y member => other y (front y member))
        (fun y member => proper y (front y member)) (irredundant.sublist (List.sublist_append_left _ _)),
        normal x last, isLiteral_chain (fun y member => proper y (front y member)) empty, proper x last,
        other x last, ?_⟩
      rw [operands_chain_of_operands empty peeled, (normal x last).operands_of_head_ne (other x last)]
      exact irredundant

theorem normal_reduce (normal : ∀ x ∈ xs, x.Normal) (other : ∀ x ∈ xs, x.head? ≠ some op) :
    (reduce op xs).Normal := by
  by_cases decided : Decided op xs
  · rw [reduce_of_decided decided]
    exact trivial
  · rw [reduce_of_not_decided decided]
    have kept : ∀ x ∈ survivors op xs, x ∈ xs := fun x member => (mem_survivors.mp member).1
    refine normal_chain (fun x member => normal x (kept x member)) (fun x member => other x (kept x member))
      (fun x member => ?_) ⟨nodup_eraseDups _, fun x plain negated => decided (Or.inr ⟨x, plain, negated⟩)⟩
    -- A literal is absorbing or neutral, and both are out.
    cases x with
    | literal value =>
      have inside := mem_survivors.mp member
      have absorbing := Connective.eq_absorbing_of_ne_neutral fun neutral => inside.2 (congrArg literal neutral)
      exact absurd (Or.inl (absorbing ▸ inside.1)) decided
    | _ => rfl

/-! ### Duals -/

theorem dual_dual (normal : f.Normal) : f.dual.dual = f := by
  induction f with
  | binary op left right ihl ihr => simp [dual, ihl normal.1, ihr normal.2.1]
  | not operand =>
    obtain ⟨name, rfl⟩ := normal
    rfl
  | parens inner => exact normal.elim
  | id name => rfl
  | literal value => simp [dual]

theorem isLiteral_dual (normal : f.Normal) : f.dual.isLiteral = f.isLiteral := by
  cases f with
  | not operand =>
    obtain ⟨name, rfl⟩ := normal
    rfl
  | parens inner => exact normal.elim
  | _ => rfl

theorem operands_dual (normal : f.Normal) (op : Connective) :
    f.dual.operands op.flip = (f.operands op).map dual := by
  have flips : ∀ a b : Connective, a.flip = b.flip ↔ a = b := by
    intro a b
    cases a <;> cases b <;> decide
  induction f with
  | binary op' left right ihl ihr =>
    by_cases same : op' = op
    · subst same
      rw [dual, operands_binary, operands_binary, List.map_append, ihl normal.1, ihr normal.2.1]
    · simp [dual, Formula.operands, same, flips]
  | not operand =>
    obtain ⟨name, rfl⟩ := normal
    rfl
  | parens inner => exact normal.elim
  | id name => rfl
  | literal value => rfl

theorem dual_chain (op : Connective) (xs : List Formula) : (chain op xs).dual = chain op.flip (xs.map dual) := by
  induction xs using List.reverseRecOn with
  | nil => cases op <;> rfl
  | append_singleton xs x ih =>
    by_cases empty : xs = []
    · simp [empty, chain]
    · rw [chain_append_singleton empty, dual, ih, List.map_append, List.map_singleton,
        chain_append_singleton (by simpa using empty)]

theorem irredundant_map_dual (normal : ∀ x ∈ xs, x.Normal) (irredundant : Irredundant xs) :
    Irredundant (xs.map dual) := by
  refine ⟨?_, fun x plain negated => ?_⟩
  · refine List.Nodup.map_on (fun x first y second same => ?_) irredundant.nodup
    rw [← dual_dual (normal x first), same, dual_dual (normal y second)]
  · obtain ⟨a, first, rfl⟩ := List.mem_map.mp plain
    obtain ⟨b, second, same⟩ := List.mem_map.mp negated
    -- `b` is the dual of `a`, so `a` is the negation of `b`.
    have dual_a : b = a.dual := by
      rw [← dual_dual (normal b second), same]
      rfl
    have negation : a = not b := by
      rw [← dual_dual (normal a first), ← dual_a, same, ← dual_a]
    exact irredundant.consistent b second (negation ▸ first)

theorem reduce_operands_dual {left right : Formula} (normal : (binary op left right).Normal) :
    reduce op.flip (left.dual.operands op.flip ++ right.dual.operands op.flip) = (binary op left right).dual := by
  have operands := fun x (member : x ∈ (binary op left right).operands op) => normal.mem_operands member
  have proper : ∀ x ∈ ((binary op left right).operands op).map dual, x.isLiteral = false := by
    intro x member
    obtain ⟨y, inside, rfl⟩ := List.mem_map.mp member
    rw [isLiteral_dual (operands y inside)]
    exact normal.operand_not_literal rfl inside
  rw [operands_dual normal.1, operands_dual normal.2.1, ← List.map_append, ← operands_binary,
    reduce_of_irredundant (irredundant_map_dual operands (normal.irredundant op)) proper, ← dual_chain,
    normal.chain_operands]

end Propositional.Formula
