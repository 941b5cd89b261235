import Propositional.Proofs.Formula.Inert

/-!
# Passes that leave nothing to do

A link of a chain is left to the head of the chain, so what is inert inside a chain need not be inert
outside it. Where drafts are settled, a part that has been moved to the top is offered again, and this
is enough as long as no law takes a part out of a chain that could be reduced: a pass then leaves an inert
formula. Laws that fold literals first do so, and if the part is a chain in parentheses, only these are
offered again.
-/

namespace Propositional

namespace Law

variable {above above' : Option Connective} {op : Connective} {l r : Formula} {xs ys : List Formula}

theorem eq_chainReduction_or_eq {law : Law} (member : law ∈ builtin) (above above' : Option Connective)
    (f : Formula) : law = chainReduction ∨ law above f = law above' f := by
  simp only [builtin, List.mem_cons, List.not_mem_nil, or_false] at member
  rcases member with rfl | rfl | rfl | rfl | rfl | rfl
  case inr.inr.inr.inr.inl => exact Or.inl rfl
  all_goals exact Or.inr (by cases f <;> rfl)

theorem chainReduction_eq_none_of_ne (head : above ≠ some op)
    (nothing : chainReduction above (.binary op l r) = none) : chainReduction above' (.binary op l r) = none := by
  rw [chainReduction_eq_none_iff] at nothing ⊢
  exact Or.inr (nothing.resolve_left head)

/-! ### Chains with nothing to reduce -/

/-- Operands of a chain from which chain reduction makes the same chain again. -/
structure Irreducible (op : Connective) (xs : List Formula) : Prop where
  nonempty : xs ≠ []
  peeled : ∀ x ∈ xs, x.peel = x ∧ x.head? ≠ some op
  nodup : xs.Nodup
  consistent : complementary xs = false

namespace Irreducible

theorem left (irreducible : Irreducible op (xs ++ ys)) (nonempty : xs ≠ []) : Irreducible op xs where
  nonempty := nonempty
  peeled x member := irreducible.peeled x (List.mem_append_left _ member)
  nodup := (List.nodup_append.mp irreducible.nodup).1
  consistent := by
    have whole := irreducible.consistent
    rw [Bool.eq_false_iff, Ne, complementary_iff] at whole ⊢
    rintro ⟨g, negation, plain⟩
    exact whole ⟨g, List.mem_append_left _ negation, List.mem_append_left _ plain⟩

theorem formula_reduced (irreducible : Irreducible op xs) :
    (reduced op ((Formula.chain op xs).operands op)).formula = Formula.chain op xs := by
  obtain ⟨nonempty, peeled, nodup, consistent⟩ := irreducible
  rw [Formula.operands_chain_of_operands nonempty peeled, reduced, eraseDups_of_nodup nodup, consistent]
  exact Draft.formula_chain op xs

theorem exists_last (irreducible : Irreducible op xs) : ∃ init last, xs = init ++ [last] :=
  ⟨_, _, (List.dropLast_concat_getLast irreducible.nonempty).symm⟩

theorem peel_chain (irreducible : Irreducible op xs) : (Formula.chain op xs).peel = Formula.chain op xs := by
  obtain ⟨init, last, rfl⟩ := irreducible.exists_last
  by_cases empty : init = []
  · subst empty
    exact (irreducible.peeled last (by simp)).1
  · rw [Formula.chain_append_singleton empty]
    rfl

end Irreducible

theorem exists_irreducible (same : (reduced op ((Formula.binary op l r).operands op)).formula = .binary op l r) :
    ∃ xs, Irreducible op xs ∧ Formula.chain op xs = .binary op l r := by
  unfold reduced at same
  split at same
  · cases same
  · rename_i consistent
    rw [Draft.formula_chain] at same
    refine ⟨_, ⟨eraseDups_ne_nil (Formula.operands_ne_nil op _), fun x member => ?_, nodup_eraseDups _,
      Bool.eq_false_iff.mpr consistent⟩, same⟩
    exact Formula.peeled_of_mem_operands (List.mem_eraseDups.mp member)

/-- A chain that is not reduced groups to the left, and without its last operand it is not reduced either. -/
theorem sides_of_reduced (same : (reduced op ((Formula.binary op l r).operands op)).formula = .binary op l r) :
    (l.peel = l ∧ (reduced op (l.operands op)).formula = l) ∧ r.peel = r ∧ r.head? ≠ some op := by
  obtain ⟨xs, irreducible, chain⟩ := exists_irreducible same
  obtain ⟨init, last, rfl⟩ := irreducible.exists_last
  have operand := irreducible.peeled last (by simp)
  by_cases empty : init = []
  · subst empty
    exact absurd (congrArg Formula.head? chain) operand.2
  · rw [Formula.chain_append_singleton empty] at chain
    obtain ⟨-, rfl, rfl⟩ := Formula.binary.inj chain
    have shorter := irreducible.left empty
    exact ⟨⟨shorter.peel_chain, shorter.formula_reduced⟩, operand⟩

end Law

namespace Formula

variable {laws : List Law} {above above' : Option Connective} {op : Connective} {f l r x : Formula}

/-! ### Moving inert formulas -/

theorem Inert.peel (inert : f.Inert laws above) : f.peel.Inert laws above := by
  induction f with
  | parens inner ih => exact ih inert.1
  | _ => exact inert

theorem Inert.of_mem_operands (inert : f.Inert laws (some op)) (member : x ∈ f.operands op) :
    x.Inert laws (some op) := by
  induction f with
  | parens inner ih => exact ih inert.1 member
  | binary op' left right ihl ihr =>
    rw [operands] at member
    split at member
    · rename_i same
      subst same
      rcases List.mem_append.mp member with member | member
      · exact ihl inert.1 member
      · exact ihr inert.2.1 member
    · rwa [List.mem_singleton.mp member]
  | not operand | id name | literal value => rwa [List.mem_singleton.mp member]

section Library

variable (library : ∀ law ∈ laws, law ∈ Law.builtin)

include library

theorem firstDraft_eq_none_of_eq_none (nothing : firstDraft laws above f = none)
    (chain : Law.chainReduction ∈ laws → Law.chainReduction above' f = none) :
    firstDraft laws above' f = none := by
  rw [firstDraft_eq_none_iff] at nothing ⊢
  intro law member
  rcases Law.eq_chainReduction_or_eq (library law member) above' above f with rfl | same
  · exact chain member
  · rw [same]
    exact nothing law member

theorem Inert.move (inert : f.Inert laws above)
    (chain : Law.chainReduction ∈ laws → ∀ op l r, f.peel = binary op l r →
      Law.chainReduction above' (binary op l r) = none) : f.Inert laws above' := by
  induction f with
  | binary op left right =>
    have top := firstDraft_eq_none_of_eq_none library inert.2.2 fun member => chain member op left right rfl
    exact ⟨inert.1, inert.2.1, top⟩
  | not operand => exact ⟨inert.1, firstDraft_eq_none_of_eq_none library inert.2 fun _ => rfl⟩
  | parens inner ih => exact ⟨ih inert.1 chain, firstDraft_eq_none_of_eq_none library inert.2 fun _ => rfl⟩
  | id name | literal value => exact firstDraft_eq_none_of_eq_none library inert fun _ => rfl

/-- A formula that is not a link of a chain may stand anywhere. -/
theorem Inert.of_head_ne (inert : f.Inert laws above)
    (head : ∀ op, f.peel.head? = some op → above ≠ some op) : f.Inert laws above' := by
  apply inert.move library
  intro member op l r peeled
  have top := inert.peel.firstDraft_eq_none
  rw [peeled, firstDraft_eq_none_iff] at top
  exact Law.chainReduction_eq_none_of_ne (head op (by rw [peeled]; rfl)) (top _ member)

theorem Inert.of_none (inert : f.Inert laws none) : f.Inert laws above :=
  inert.of_head_ne library fun _ _ => nofun

theorem Inert.of_operand (inert : f.Inert laws (some op)) (peeled : f.peel = f) (other : f.head? ≠ some op) :
    f.Inert laws above := by
  apply inert.of_head_ne library
  intro op' head same
  rw [peeled] at head
  exact other (head.trans same.symm)

/-- The sides of a chain that is not reduced may stand anywhere. -/
theorem inert_sides (left : l.Inert laws (some op)) (right : r.Inert laws (some op)) (head : above ≠ some op)
    (nothing : Law.chainReduction ∈ laws → Law.chainReduction above (binary op l r) = none) :
    l.Inert laws above' ∧ r.Inert laws above' := by
  by_cases member : Law.chainReduction ∈ laws
  · have same := (Law.chainReduction_eq_none_iff.mp (nothing member)).resolve_left head
    obtain ⟨⟨peeled, sameLeft⟩, peeledRight, other⟩ := Law.sides_of_reduced same
    refine ⟨?_, right.of_operand library peeledRight other⟩
    by_cases link : l.head? = some op
    · -- The rest of the chain has no more to reduce than the chain has.
      apply left.move library
      rintro - op' l₁ l₂ top
      rw [peeled] at top
      subst top
      obtain rfl := Option.some.inj link
      exact Law.chainReduction_eq_none_iff.mpr (Or.inr sameLeft)
    · exact left.of_operand library peeled link
  · exact ⟨left.move library fun reduces => absurd reduces member,
      right.move library fun reduces => absurd reduces member⟩

end Library

/-- No law has a draft for anything below the top of the formula. -/
def InertBelow (laws : List Law) : Option Connective → Formula → Prop
  | _, binary op left right => left.Inert laws (some op) ∧ right.Inert laws (some op)
  | _, not operand => operand.Inert laws none
  | above, parens inner => inner.Inert laws above
  | _, id _ => True
  | _, literal _ => True

theorem inert_iff : f.Inert laws above ↔ f.InertBelow laws above ∧ firstDraft laws above f = none := by
  cases f <;> simp [Inert, InertBelow, and_assoc]

end Formula

/-! ### Drafts of inert parts -/

namespace Draft

variable {laws : List Law} {n : Nat} {above : Option Connective} {op : Connective} {g : Formula}
  {fs : List Formula} {d : Draft Formula} {ask : Option Connective → Formula → Option Outcome}

/-- All that a draft moves is inert in its new place. -/
def Ready (laws : List Law) : Option Connective → Draft Formula → Prop
  | above, moved f => f.Inert laws above
  | _, binary op left right => left.Ready laws (some op) ∧ right.Ready laws (some op)
  | _, not operand => operand.Ready laws none
  | above, parens inner => inner.Ready laws above
  | _, id _ => True
  | _, literal _ => True

/-- As `Ready`, but the top of a part that is all of the draft is still to be offered. -/
def Prepared (laws : List Law) (above : Option Connective) : Draft Formula → Prop
  | moved part => part.InertBelow laws above
  | d => d.Ready laws above

theorem Ready.prepared (ready : d.Ready laws above) : d.Prepared laws above := by
  cases d with
  | moved part => exact (Formula.inert_iff.mp ready).1
  | _ => exact ready

theorem Prepared.ready (prepared : d.Prepared laws above) (new : d.isMoved = false) : d.Ready laws above := by
  cases d with
  | moved part => cases new
  | _ => exact prepared

theorem Ready.settle
    (offers : ∀ above f g n, f.InertBelow laws above → ask above f = some (g, n) → g.Inert laws above)
    (ready : d.Ready laws above) (settled : d.settle ask above = some (g, n)) : g.Inert laws above := by
  induction d generalizing above g n with
  | moved f =>
    obtain ⟨rfl, -⟩ := Prod.mk.inj (Option.some.inj settled)
    exact ready
  | binary op left right ihl ihr =>
    obtain ⟨l, i, r, j, k, first, second, top, -⟩ := settle_binary_eq_some settled
    exact offers _ (.binary op l r) _ _ ⟨ihl ready.1 first, ihr ready.2 second⟩ top
  | not operand ih =>
    obtain ⟨f, i, k, below, top, -⟩ := settle_not_eq_some settled
    exact offers _ (.not f) _ _ (ih ready below) top
  | parens inner ih =>
    obtain ⟨f, i, k, below, top, -⟩ := settle_parens_eq_some settled
    exact offers _ (.parens f) _ _ (ih ready below) top
  | id name => exact offers _ (.id name) _ _ trivial settled
  | literal value => exact offers _ (.literal value) _ _ trivial settled

theorem ready_chain (inert : ∀ f ∈ fs, ∀ above, f.Inert laws above) (above : Option Connective) :
    (chain op fs).Ready laws above := by
  induction fs using List.reverseRecOn generalizing above with
  | nil => exact trivial
  | append_singleton fs f ih =>
    by_cases empty : fs = []
    · subst empty
      exact inert f (by simp) above
    · rw [chain_append_singleton empty]
      exact ⟨ih (fun g member => inert g (by simp [member])) _, inert f (by simp) _⟩

theorem ready_toDraft (f : Formula) (above : Option Connective) : f.toDraft.Ready laws above := by
  induction f generalizing above with
  | binary op left right ihl ihr => exact ⟨ihl _, ihr _⟩
  | not operand ih | parens inner ih => exact ih _
  | id name | literal value => exact trivial

theorem prepared_absorb (below : g.InertBelow laws above) (value : Bool) :
    (Law.absorb op value g).Prepared laws above := by
  unfold Law.absorb
  split
  · exact below
  · exact trivial

end Draft

/-! ### What laws move -/

namespace Formula

variable {laws : List Law} {steps n : Nat} {above : Option Connective} {f g : Formula} {d : Draft Formula}

theorem ready_of_chainReduction (library : ∀ law ∈ laws, law ∈ Law.builtin) (below : f.InertBelow laws above)
    (drafted : Law.chainReduction above f = some d) (above' : Option Connective) : d.Ready laws above' := by
  obtain ⟨op, left, right, rfl, -, rfl, -⟩ := Law.chainReduction_eq_some drafted
  have inert : ∀ x ∈ (binary op left right).operands op, ∀ above, x.Inert laws above := by
    intro x member above
    have own : x.Inert laws (some op) := by
      rw [operands_binary] at member
      rcases List.mem_append.mp member with member | member
      · exact below.1.of_mem_operands member
      · exact below.2.of_mem_operands member
    obtain ⟨peeled, other⟩ := peeled_of_mem_operands member
    exact own.of_operand library peeled other
  unfold Law.reduced
  split
  · exact trivial
  · exact Draft.ready_chain (fun x member => inert x (List.mem_eraseDups.mp member)) above'

theorem prepared_of_literalOperand (library : ∀ law ∈ laws, law ∈ Law.builtin) (below : f.InertBelow laws above)
    (nothing : Law.chainReduction ∈ laws → Law.chainReduction above f = none)
    (drafted : Law.literalOperand above f = some d) : d.Prepared laws above := by
  obtain ⟨op, l, r, value, rfl, sides⟩ := Law.literalOperand_eq_some drafted
  obtain ⟨left, right⟩ := below
  have lifted : l.InertBelow laws above ∧ r.InertBelow laws above := by
    by_cases link : above = some op
    · subst link
      exact ⟨(inert_iff.mp left).1, (inert_iff.mp right).1⟩
    · obtain ⟨leftAbove, rightAbove⟩ : l.Inert laws above ∧ r.Inert laws above :=
        inert_sides library left right link nothing
      exact ⟨(inert_iff.mp leftAbove).1, (inert_iff.mp rightAbove).1⟩
  rcases sides with ⟨-, rfl⟩ | ⟨-, rfl⟩
  · exact Draft.prepared_absorb lifted.2 value
  · exact Draft.prepared_absorb lifted.1 value

/-- Chain reduction, if it is one of the laws, is never preceded by another draft. -/
def ReducesFirst (laws : List Law) : Prop :=
  Law.chainReduction ∈ laws →
    ∀ above f d, Law.chainReduction above f = some d → firstDraft laws above f = some d

section Kept

variable (library : ∀ law ∈ laws, law ∈ Law.builtin) (kept : Law.dropParens ∉ laws)
  (reduces : ReducesFirst laws)

include library kept reduces

theorem prepared_of_firstDraft (below : f.InertBelow laws above) (drafted : firstDraft laws above f = some d) :
    d.Prepared laws above := by
  by_cases chain : Law.chainReduction ∈ laws ∧ ∃ d', Law.chainReduction above f = some d'
  · obtain ⟨member, d', proposed⟩ := chain
    obtain rfl := Option.some.inj (drafted.symm.trans (reduces member above f d' proposed))
    exact (ready_of_chainReduction library below proposed above).prepared
  · have nothing : Law.chainReduction ∈ laws → Law.chainReduction above f = none := by
      intro member
      rw [Option.eq_none_iff_forall_ne_some]
      exact fun d' proposed => chain ⟨member, d', proposed⟩
    obtain ⟨law, member, proposed⟩ := exists_law_of_firstDraft drafted
    have listed := library law member
    simp only [Law.builtin, List.mem_cons, List.not_mem_nil, or_false] at listed
    rcases listed with rfl | rfl | rfl | rfl | rfl | rfl
    · obtain ⟨g, op, l, r, rfl, peeled, rfl⟩ := Law.deMorgan_eq_some proposed
      have inert : g.Inert laws none := below
      have parts := inert.peel
      rw [peeled] at parts
      have top : none ≠ some op := (Option.some_ne_none op).symm
      exact inert_sides library parts.1 parts.2.1 top fun chain => firstDraft_eq_none_iff.mp parts.2.2 _ chain
    · obtain ⟨g, value, rfl, -, rfl⟩ := Law.invertLiteral_eq_some proposed
      exact trivial
    · obtain ⟨g, inner, rfl, peeled, rfl⟩ := Law.doubleNegation_eq_some proposed
      have inert : g.Inert laws none := below
      have parts := inert.peel
      rw [peeled] at parts
      exact (inert_iff.mp (parts.1.of_none library)).1
    · exact prepared_of_literalOperand library below nothing proposed
    · simp [nothing member] at proposed
    · exact absurd member kept

/-! ### One pass is enough -/

theorem inert_of_offer (below : f.InertBelow laws above) (offered : f.offer laws true steps above = some (g, n)) :
    g.Inert laws above := by
  induction steps generalizing above f g n with
  | zero => simp [offer] at offered
  | succ steps ih =>
    rcases offer_eq_some offered with ⟨nothing, rfl, -⟩ | ⟨d, drafted, ⟨off, -⟩ | ⟨-, h, i, k, settled, top, -⟩⟩
    · exact inert_iff.mpr ⟨below, nothing⟩
    · cases off
    · have prepared := prepared_of_firstDraft library kept reduces below drafted
      by_cases alone : d.isMoved = true
      · obtain ⟨part, rfl⟩ := Draft.exists_of_isMoved alone
        obtain ⟨rfl, -⟩ := Prod.mk.inj (Option.some.inj settled)
        exact ih prepared top
      · rw [if_neg alone] at top
        obtain ⟨rfl, -⟩ := Prod.mk.inj (Option.some.inj top)
        exact (prepared.ready (Bool.eq_false_iff.mpr alone)).settle (fun _ _ _ _ => ih) settled

/-- A pass that settles its drafts leaves nothing to do. -/
theorem inert_of_pass (passed : f.pass laws true steps above = some (g, n)) : g.Inert laws above :=
  (Draft.ready_toDraft f above).settle (fun _ _ _ _ => inert_of_offer library kept reduces) passed

end Kept

/-! ### Parts that are lifted inside their parentheses -/

/-- `x AND x`, a chain with an operand to drop. -/
def doubled : Formula := binary .and (id "x") (id "x")

/-- `TRUE AND (x AND x)` -/
def lifting : Formula := binary .and (literal true) (parens doubled)

theorem chainReduction_doubled : Law.chainReduction none doubled ≠ none := by
  rw [doubled, Ne, Law.chainReduction_eq_none_iff]
  decide

theorem inert_links (library : ∀ law ∈ laws, law ∈ Law.builtin) (kept : Law.dropParens ∉ laws) :
    (literal true).Inert laws (some .and) ∧ (parens doubled).Inert laws (some .and) := by
  have quiet : ∀ law ∈ laws, law (some .and) (id "x") = none ∧ law (some .and) (literal true) = none ∧
      law (some .and) doubled = none ∧ law (some .and) (parens doubled) = none := by
    intro law member
    have listed := library law member
    simp only [Law.builtin, List.mem_cons, List.not_mem_nil, or_false] at listed
    rcases listed with rfl | rfl | rfl | rfl | rfl | rfl
    case inr.inr.inr.inr.inr => exact absurd member kept
    all_goals exact ⟨rfl, rfl, rfl, rfl⟩
  have name := firstDraft_eq_none_iff.mpr fun law member => (quiet law member).1
  have value := firstDraft_eq_none_iff.mpr fun law member => (quiet law member).2.1
  have chain := firstDraft_eq_none_iff.mpr fun law member => (quiet law member).2.2.1
  have group := firstDraft_eq_none_iff.mpr fun law member => (quiet law member).2.2.2
  exact ⟨value, ⟨name, name, chain⟩, group⟩

theorem pass_lifting (library : ∀ law ∈ laws, law ∈ Law.builtin) (kept : Law.dropParens ∉ laws)
    (folded : firstDraft laws none lifting = some (.moved (parens doubled)))
    (passed : lifting.pass laws true steps none = some (g, n)) : g = parens doubled := by
  obtain ⟨value, group⟩ := inert_links library kept
  obtain ⟨l, i, r, j, k, first, second, top, -⟩ := Draft.settle_binary_eq_some passed
  obtain ⟨rfl, -⟩ := value.eq_of_pass first
  obtain ⟨rfl, -⟩ := group.eq_of_pass second
  obtain ⟨steps, m, again⟩ := offer_of_moved folded top
  -- What is offered again are the parentheses, and no law is for them.
  have nothing : firstDraft laws none (parens doubled) = none :=
    firstDraft_eq_none_of_eq_none library group.2 fun _ => rfl
  exact (offer_of_firstDraft_eq_none nothing again).1

theorem not_inert_doubled (member : Law.chainReduction ∈ laws) : ¬ (parens doubled).Inert laws none := by
  intro inert
  have nothing := firstDraft_eq_none_iff.mp inert.1.firstDraft_eq_none _ member
  exact chainReduction_doubled nothing

end Formula

end Propositional
