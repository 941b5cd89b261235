import Propositional.Proofs.Formula.Inert
import Propositional.Proofs.Formula.Normal

/-!
# Passes compute normal forms

With all laws and drafts that are settled, a pass leaves a formula in its normal form. On the way, a
formula below a connective of its own sort is left as it is, since only the head of a chain is reduced.
`Settled` says what can be left below a connective, and `resolve` what becomes of it at the head of its
chain. An offer keeps what is settled, and what was settled below one connective is settled when it has
been offered below another.
-/

namespace Propositional.Formula

variable {above : Option Connective} {op : Connective} {f g h l r : Formula} {xs : List Formula}
  {steps n : Nat} {d : Draft Formula}

/-- What a pass can leave below a connective. -/
def Settled (above : Option Connective) : Formula → Prop
  | binary op left right =>
    if above = some op then
      left.Settled above ∧ right.Settled above ∧ left.isLiteral = false ∧ right.isLiteral = false
    else (binary op left right).Normal
  | f => f.Normal

/-- What a settled formula becomes at the head of its chain. -/
def resolve : Formula → Formula
  | f@(binary op _ _) => reduce op (f.operands op)
  | f => f

theorem Normal.settled (normal : f.Normal) (above : Option Connective) : f.Settled above := by
  induction f with
  | binary op left right ihl ihr =>
    rw [Settled]
    split
    · exact ⟨ihl normal.1, ihr normal.2.1, normal.2.2.1, normal.2.2.2.1⟩
    · exact normal
  | _ => exact normal

theorem Settled.normal (settled : f.Settled above) (other : ∀ op, f.head? = some op → above ≠ some op) :
    f.Normal := by
  cases f with
  | binary op left right =>
    rw [Settled, if_neg (other op rfl)] at settled
    exact settled
  | _ => exact settled

theorem Settled.peel (settled : f.Settled above) : f.peel = f := by
  cases f with
  | parens inner => exact settled.elim
  | _ => rfl

theorem Settled.literal?_eq_none (settled : f.Settled above) (proper : f.isLiteral = false) :
    f.literal? = none := by
  rw [literal?, settled.peel]
  cases f with
  | literal value => simp [isLiteral] at proper
  | _ => rfl

theorem Normal.resolve (normal : f.Normal) : f.resolve = f := by
  cases f with
  | binary op left right => exact normal.reduce_operands op
  | _ => rfl

theorem Settled.mem_operands (settled : f.Settled (some op)) {x : Formula} (member : x ∈ f.operands op) :
    x.Normal := by
  induction f with
  | binary op' left right ihl ihr =>
    by_cases same : op' = op
    · subst same
      rw [Settled, if_pos rfl] at settled
      rw [operands_binary] at member
      rcases List.mem_append.mp member with member | member
      · exact ihl settled.1 member
      · exact ihr settled.2.1 member
    · have normal := settled.normal (by simpa [head?] using fun h => same h.symm)
      exact normal.mem_operands member
  | parens inner => exact settled.elim
  | _ =>
    rw [List.mem_singleton.mp member]
    exact settled

theorem Settled.operand_not_literal (settled : f.Settled (some op)) (proper : f.isLiteral = false) {x : Formula}
    (member : x ∈ f.operands op) : x.isLiteral = false := by
  induction f with
  | binary op' left right ihl ihr =>
    by_cases same : op' = op
    · subst same
      rw [Settled, if_pos rfl] at settled
      rw [operands_binary] at member
      rcases List.mem_append.mp member with member | member
      · exact ihl settled.1 settled.2.2.1 member
      · exact ihr settled.2.1 settled.2.2.2 member
    · have normal := settled.normal (by simpa [head?] using fun h => same h.symm)
      exact normal.operand_not_literal rfl member
  | parens inner => exact settled.elim
  | _ =>
    rw [List.mem_singleton.mp member]
    exact proper

theorem operands_operands (op : Connective) (f : Formula) : Operands op (f.operands op) :=
  fun _ member => peeled_of_mem_operands member

theorem Settled.normal_resolve (settled : f.Settled (some op)) : f.resolve.Normal := by
  by_cases head : f.head? = some op
  · obtain ⟨left, right, rfl⟩ := head?_eq_some_iff.mp head
    exact normal_reduce (fun x => settled.mem_operands) (fun x member => (operands_operands op _ x member).2)
  · have normal := settled.normal (fun op' same equal => head (same.trans (by rw [Option.some.inj equal])))
    rw [normal.resolve]
    exact normal

theorem Settled.reduce_resolve (settled : f.Settled (some op)) (before after : List Formula) :
    reduce op (before ++ f.resolve.operands op ++ after) = reduce op (before ++ f.operands op ++ after) := by
  by_cases head : f.head? = some op
  · obtain ⟨left, right, rfl⟩ := head?_eq_some_iff.mp head
    exact reduce_operands_reduce (operands_operands op _) before after
  · have normal := settled.normal (fun op' same equal => head (same.trans (by rw [Option.some.inj equal])))
    rw [normal.resolve]

/-! ### Offers that change nothing -/

theorem firstDraft_binary (above : Option Connective) (op : Connective) (l r : Formula) :
    firstDraft Law.builtin above (binary op l r) =
      (Law.literalOperand above (binary op l r)).or (Law.chainReduction above (binary op l r)) := by
  simp only [firstDraft, Law.builtin, List.findSome?, Law.deMorgan, Law.invertLiteral, Law.doubleNegation,
    Law.dropParens]
  cases Law.literalOperand above (binary op l r) <;> cases Law.chainReduction above (binary op l r) <;> rfl

theorem literalOperand_eq_none (left : l.Settled (some op)) (right : r.Settled (some op))
    (properLeft : l.isLiteral = false) (properRight : r.isLiteral = false) :
    Law.literalOperand above (binary op l r) = none := by
  rw [Law.literalOperand, left.literal?_eq_none properLeft, right.literal?_eq_none properRight]

theorem formula_reduced (normal : ∀ x ∈ xs, x.Normal) (proper : ∀ x ∈ xs, x.isLiteral = false) :
    (Law.reduced op xs).formula = reduce op xs := by
  have same : survivors op xs = xs.eraseDups := survivors_of_proper proper
  have inside : ∀ x ∈ xs.eraseDups, x ∈ xs := fun x member => List.mem_eraseDups.mp member
  unfold Law.reduced
  by_cases decided : Decided op xs
  · have complements : Law.complementary xs.eraseDups = true := by
      rcases decided with absorbing | ⟨x, plain, negated⟩
      · simpa [isLiteral] using proper _ absorbing
      · rw [same] at plain negated
        refine Law.complementary_iff.mpr ⟨x, negated, ?_⟩
        rwa [(normal x (inside x plain)).peel]
    rw [if_pos complements, reduce_of_decided decided]
    rfl
  · have consistent : ¬ Law.complementary xs.eraseDups = true := by
      intro complements
      obtain ⟨x, negated, plain⟩ := Law.complementary_iff.mp complements
      obtain ⟨name, rfl⟩ := normal _ (inside _ negated)
      exact decided (Or.inr ⟨id name, same ▸ plain, same ▸ negated⟩)
    rw [if_neg consistent, reduce_of_not_decided decided, same, Draft.formula_chain]

theorem Settled.sides (settled : (binary op l r).Settled above) :
    l.Settled (some op) ∧ r.Settled (some op) ∧ l.isLiteral = false ∧ r.isLiteral = false := by
  rw [Settled] at settled
  split at settled
  · rename_i inner
    rwa [inner] at settled
  · exact ⟨settled.1.settled _, settled.2.1.settled _, settled.2.2.1, settled.2.2.2.1⟩

theorem Settled.firstDraft_eq_none (settled : f.Settled above) : firstDraft Law.builtin above f = none := by
  cases f with
  | binary op l r =>
    obtain ⟨left, right, properLeft, properRight⟩ := settled.sides
    rw [firstDraft_binary, literalOperand_eq_none left right properLeft properRight, Option.none_or]
    by_cases inner : above = some op
    · exact if_pos (Or.inl inner)
    · have normal := settled.normal (fun op' same => Option.some.inj same ▸ inner)
      refine if_pos (Or.inr ?_)
      rw [formula_reduced (fun x => normal.mem_operands) (fun x => normal.operand_not_literal rfl)]
      exact normal.reduce_operands op
  | not operand =>
    obtain ⟨name, rfl⟩ := settled
    rfl
  | parens inner => exact settled.elim
  | id name => rfl
  | literal value => rfl

theorem Settled.offer (settled : f.Settled above) (offered : f.offer Law.builtin true steps above = some (g, n)) :
    g = f ∧ n = 0 :=
  offer_of_firstDraft_eq_none settled.firstDraft_eq_none offered

theorem Settled.inert (settled : f.Settled above) : f.Inert Law.builtin above := by
  induction f generalizing above with
  | binary op l r ihl ihr =>
    obtain ⟨left, right, -⟩ := settled.sides
    exact ⟨ihl left, ihr right, settled.firstDraft_eq_none⟩
  | not operand ih =>
    refine ⟨ih ?_, settled.firstDraft_eq_none⟩
    obtain ⟨name, rfl⟩ := settled
    exact trivial
  | parens inner => exact settled.elim
  | id name | literal value => exact settled.firstDraft_eq_none

theorem Settled.pass (settled : f.Settled above) (passed : f.pass Law.builtin true steps above = some (g, n)) :
    g = f ∧ n = 0 :=
  settled.inert.eq_of_pass passed

/-! ### Offers at the head of a chain -/

theorem settled_chain (normal : ∀ x ∈ xs, x.Normal) (proper : ∀ x ∈ xs, x.isLiteral = false)
    (nonempty : xs ≠ []) : (chain op xs).Settled (some op) := by
  induction xs using List.reverseRecOn with
  | nil => exact absurd rfl nonempty
  | append_singleton xs x ih =>
    have last : x ∈ xs ++ [x] := by simp
    have front : ∀ y ∈ xs, y ∈ xs ++ [x] := fun y member => List.mem_append_left _ member
    by_cases empty : xs = []
    · subst empty
      exact (normal x last).settled _
    · rw [chain_append_singleton empty, Settled, if_pos rfl]
      exact ⟨ih (fun y member => normal y (front y member)) (fun y member => proper y (front y member)) empty,
        (normal x last).settled _, isLiteral_chain (fun y member => proper y (front y member)) empty,
        proper x last⟩

theorem settle_chain (normal : ∀ x ∈ xs, x.Normal) (proper : ∀ x ∈ xs, x.isLiteral = false)
    (nonempty : xs ≠ []) (settled : (chain op xs).Settled above)
    (ended : (Draft.chain op xs).settle (Formula.offer Law.builtin true steps) above = some (g, n)) :
    g = chain op xs := by
  induction xs using List.reverseRecOn generalizing above g n with
  | nil => exact absurd rfl nonempty
  | append_singleton xs x ih =>
    have front : ∀ y ∈ xs, y ∈ xs ++ [x] := fun y member => List.mem_append_left _ member
    by_cases empty : xs = []
    · subst empty
      exact (Prod.mk.inj (Option.some.inj ended)).1.symm
    · have normalFront := fun y member => normal y (front y member)
      have properFront := fun y member => proper y (front y member)
      rw [chain_append_singleton empty] at settled ⊢
      rw [Draft.chain_append_singleton empty] at ended
      obtain ⟨l, i, r, j, k, first, second, top, rfl⟩ := Draft.settle_binary_eq_some ended
      obtain rfl := ih normalFront properFront empty (settled_chain normalFront properFront empty) first
      obtain ⟨rfl, -⟩ := Prod.mk.inj (Option.some.inj second)
      exact (settled.offer top).1

theorem Settled.offer_head (settled : (binary op l r).Settled (some op)) (head : above ≠ some op)
    (offered : (binary op l r).offer Law.builtin true steps above = some (g, n)) :
    g = (binary op l r).resolve := by
  obtain ⟨left, right, properLeft, properRight⟩ := settled.sides
  have normal : ∀ x ∈ (binary op l r).operands op, x.Normal := fun x => settled.mem_operands
  have proper : ∀ x ∈ (binary op l r).operands op, x.isLiteral = false := fun x => settled.operand_not_literal rfl
  have result : (Law.reduced op ((binary op l r).operands op)).formula = (binary op l r).resolve :=
    formula_reduced normal proper
  have drafted : firstDraft Law.builtin above (binary op l r) = Law.chainReduction above (binary op l r) := by
    rw [firstDraft_binary, literalOperand_eq_none left right properLeft properRight, Option.none_or]
  by_cases same : (Law.reduced op ((binary op l r).operands op)).formula = binary op l r
  · have nothing : firstDraft Law.builtin above (binary op l r) = none := drafted.trans (if_pos (Or.inr same))
    rw [(offer_of_firstDraft_eq_none nothing offered).1, ← result, same]
  · have drafted := drafted.trans (if_neg (not_or.mpr ⟨head, same⟩))
    have resolved := settled.normal_resolve
    rw [← result] at resolved ⊢
    unfold Law.reduced at drafted resolved ⊢
    split at drafted
    · rename_i complements
      rw [if_pos complements]
      obtain ⟨steps, m, ended⟩ := offer_of_new drafted rfl offered
      have literal : (literal op.absorbing).Settled above := trivial
      exact (literal.offer ended).1
    · rename_i consistent
      rw [if_neg consistent, Draft.formula_chain] at resolved ⊢
      cases alone : (Draft.chain op ((binary op l r).operands op).eraseDups).isMoved with
      | true =>
        -- A single operand is left: it is moved, and normal.
        obtain ⟨x, single⟩ := Draft.exists_of_isMoved alone
        have equal : chain op ((binary op l r).operands op).eraseDups = x := by
          rw [← Draft.formula_chain, single]
          rfl
        rw [equal] at resolved ⊢
        obtain ⟨steps, m, again⟩ := offer_of_moved (single ▸ drafted) offered
        exact ((resolved.settled above).offer again).1
      | false =>
        obtain ⟨steps, m, ended⟩ := offer_of_new drafted alone offered
        refine settle_chain (fun x member => normal x (List.mem_eraseDups.mp member))
          (fun x member => proper x (List.mem_eraseDups.mp member)) ?_ (resolved.settled above) ended
        exact eraseDups_ne_nil (operands_ne_nil op _)

/-- What was settled below one connective is settled below another when it has been offered there. -/
theorem Settled.offer_elsewhere (settled : f.Settled (some op))
    (offered : f.offer Law.builtin true steps above = some (g, n)) : g.Settled above ∧ g.resolve = f.resolve := by
  by_cases head : f.head? = some op ∧ above ≠ some op
  · obtain ⟨l, r, rfl⟩ := head?_eq_some_iff.mp head.1
    have normal := settled.normal_resolve
    rw [settled.offer_head head.2 offered]
    exact ⟨normal.settled above, normal.resolve⟩
  · have stays : f.Settled above := by
      by_cases same : f.head? = some op
      · have inner : above = some op := by
          by_contra other
          exact head ⟨same, other⟩
        rw [inner]
        exact settled
      · refine Normal.settled (settled.normal ?_) above
        intro op' top equal
        exact same (top.trans (by rw [Option.some.inj equal]))
    rw [(stays.offer offered).1]
    exact ⟨stays, rfl⟩

/-! ### Offers of a connective and of a negation -/

theorem exists_of_isLiteral (isLiteral : f.isLiteral = true) : ∃ value, f = literal value := by
  cases f with
  | literal value => exact ⟨value, rfl⟩
  | _ => simp [Formula.isLiteral] at isLiteral

theorem Settled.offer_absorb {value : Bool} (settled : f.Settled (some op))
    (drafted : firstDraft Law.builtin above g = some (Law.absorb op value f))
    (offered : g.offer Law.builtin true steps above = some (h, n)) :
    h.Settled above ∧ h.resolve = reduce op (literal value :: f.resolve.operands op) := by
  by_cases neutral : value = op.neutral
  · rw [Law.absorb, if_pos neutral] at drafted
    obtain ⟨steps, m, again⟩ := offer_of_moved drafted offered
    obtain ⟨moved, resolved⟩ := settled.offer_elsewhere again
    refine ⟨moved, ?_⟩
    rw [resolved, neutral, reduce_neutral_cons, settled.normal_resolve.reduce_operands]
  · rw [Law.absorb, if_neg neutral] at drafted
    obtain rfl := Connective.eq_absorbing_of_ne_neutral neutral
    obtain ⟨steps, m, ended⟩ := offer_of_new drafted rfl offered
    have literal : (literal op.absorbing).Settled above := trivial
    rw [(literal.offer ended).1]
    refine ⟨trivial, ?_⟩
    rw [reduce_of_decided (Or.inl List.mem_cons_self)]
    rfl

/-- A connective above settled formulas is settled, and resolves to what they come to together. -/
theorem offer_binary (left : l.Settled (some op)) (right : r.Settled (some op))
    (offered : (binary op l r).offer Law.builtin true steps above = some (g, n)) :
    g.Settled above ∧ g.resolve = reduce op (l.resolve.operands op ++ r.resolve.operands op) := by
  cases first : l.isLiteral with
  | true =>
    obtain ⟨value, rfl⟩ := exists_of_isLiteral first
    have drafted : firstDraft Law.builtin above (binary op (literal value) r) = some (Law.absorb op value r) := by
      rw [firstDraft_binary]
      rfl
    exact right.offer_absorb drafted offered
  | false =>
    cases second : r.isLiteral with
    | true =>
      obtain ⟨value, rfl⟩ := exists_of_isLiteral second
      have drafted : firstDraft Law.builtin above (binary op l (literal value)) = some (Law.absorb op value l) := by
        rw [firstDraft_binary, Law.literalOperand, left.literal?_eq_none first]
        rfl
      obtain ⟨settled, resolved⟩ := left.offer_absorb drafted offered
      refine ⟨settled, ?_⟩
      rw [resolved, ← reduce_append_literal]
      rfl
    | false =>
      have settled : (binary op l r).Settled (some op) := by
        rw [Settled, if_pos rfl]
        exact ⟨left, right, first, second⟩
      obtain ⟨moved, resolved⟩ := settled.offer_elsewhere offered
      refine ⟨moved, ?_⟩
      have inLeft := left.reduce_resolve [] (r.resolve.operands op)
      have inRight := right.reduce_resolve (l.operands op) []
      simp only [List.nil_append, List.append_nil] at inLeft inRight
      rw [resolved, inLeft, inRight, Formula.resolve, operands_binary]

/-- A negation of a normal formula resolves to its dual. -/
theorem Normal.offer_not (normal : f.Normal)
    (offered : (not f).offer Law.builtin true steps above = some (g, n)) :
    g.Settled above ∧ g.resolve = f.dual := by
  induction f generalizing above steps g n with
  | binary op left right ihl ihr =>
    obtain ⟨steps, m, ended⟩ := offer_of_new (d := .binary op.flip (.not (.moved left)) (.not (.moved right)))
      rfl rfl offered
    obtain ⟨l', i, r', j, k, first, second, top, rfl⟩ := Draft.settle_binary_eq_some ended
    obtain ⟨_, _, _, moved, first, -⟩ := Draft.settle_not_eq_some first
    obtain ⟨rfl, rfl⟩ := Prod.mk.inj (Option.some.inj moved)
    obtain ⟨_, _, _, moved, second, -⟩ := Draft.settle_not_eq_some second
    obtain ⟨rfl, rfl⟩ := Prod.mk.inj (Option.some.inj moved)
    obtain ⟨settledLeft, resolvedLeft⟩ := ihl normal.1 first
    obtain ⟨settledRight, resolvedRight⟩ := ihr normal.2.1 second
    obtain ⟨settled, resolved⟩ := offer_binary settledLeft settledRight top
    refine ⟨settled, ?_⟩
    rw [resolved, resolvedLeft, resolvedRight, reduce_operands_dual normal]
  | not operand =>
    obtain ⟨name, rfl⟩ := normal
    obtain ⟨steps, m, again⟩ := offer_of_moved (h := id name) rfl offered
    have settled : (id name).Settled above := trivial
    rw [(settled.offer again).1]
    exact ⟨settled, rfl⟩
  | parens inner => exact normal.elim
  | id name =>
    have settled : (not (id name)).Settled above := ⟨name, rfl⟩
    rw [(settled.offer offered).1]
    exact ⟨settled, rfl⟩
  | literal value =>
    obtain ⟨steps, m, ended⟩ := offer_of_new (d := .literal (!value)) rfl rfl offered
    have settled : (literal (!value)).Settled above := trivial
    rw [(settled.offer ended).1]
    exact ⟨settled, rfl⟩

/-! ### Passes -/

theorem Settled.normal_of_none (settled : f.Settled none) : f.Normal :=
  settled.normal (by simp)

/-- A pass settles a formula, and what it leaves resolves to the normal form. -/
theorem pass_settles (passed : f.pass Law.builtin true steps above = some (g, n)) :
    g.Settled above ∧ g.resolve = f.nf := by
  induction f generalizing above g n with
  | binary op left right ihl ihr =>
    obtain ⟨l', i, r', j, k, first, second, top, rfl⟩ := Draft.settle_binary_eq_some passed
    obtain ⟨settledLeft, resolvedLeft⟩ := ihl first
    obtain ⟨settledRight, resolvedRight⟩ := ihr second
    obtain ⟨settled, resolved⟩ := offer_binary settledLeft settledRight top
    refine ⟨settled, ?_⟩
    rw [resolved, resolvedLeft, resolvedRight, nf]
  | not operand ih =>
    obtain ⟨f', i, k, below, top, rfl⟩ := Draft.settle_not_eq_some passed
    obtain ⟨settled, resolved⟩ := ih below
    have normal := settled.normal_of_none
    rw [normal.resolve] at resolved
    subst resolved
    exact normal.offer_not top
  | parens inner ih =>
    obtain ⟨f', i, k, below, top, rfl⟩ := Draft.settle_parens_eq_some passed
    obtain ⟨settled, resolved⟩ := ih below
    obtain ⟨steps, m, again⟩ := offer_of_moved (h := f') rfl top
    rw [(settled.offer again).1]
    exact ⟨settled, resolved⟩
  | id name =>
    have settled : (id name).Settled above := trivial
    rw [(settled.offer passed).1]
    exact ⟨settled, rfl⟩
  | literal value =>
    have settled : (literal value).Settled above := trivial
    rw [(settled.offer passed).1]
    exact ⟨settled, rfl⟩

/-- Below no connective, a pass leaves the normal form. -/
theorem pass_eq_nf (passed : f.pass Law.builtin true steps none = some (g, n)) : g = f.nf ∧ f.nf.Normal := by
  obtain ⟨settled, resolved⟩ := pass_settles passed
  have normal := settled.normal_of_none
  rw [normal.resolve] at resolved
  subst resolved
  exact ⟨rfl, normal⟩

end Propositional.Formula
