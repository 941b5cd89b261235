import Propositional.Proofs.Arena.RoundTrip
import Propositional.Proofs.Formula.Rearrangement

/-!
# Comparing up to rearrangement

Comparing two nodes up to associativity, commutativity and parentheses always answers, and the answer is
whether the tree of one can be rearranged into the tree of the other. Operands are paired off one after the
other, each with the first that is left and the same. No choice has to be taken back, since operands that
are the same as one operand are the same as each other.
-/

namespace Propositional

namespace Term

def arrangement (t : Term) : Formula.Arrangement := t.formula.arrangement

theorem arrangement_peel (t : Term) : t.peel.arrangement = t.arrangement := by
  rw [arrangement, formula_peel, Formula.arrangement_peel]
  rfl

theorem map_arrangement_operands (op : Connective) (t : Term) :
    (t.operands op).map arrangement = t.formula.arrangements op := by
  rw [Formula.arrangements, ← map_formula_operands, List.map_map]
  rfl

theorem peel_ne_parens (t : Term) (h : Handle) (inner : Term) : t.peel ≠ .parens h inner := by
  intro same
  apply Formula.peel_ne_parens t.formula inner.formula
  rw [← formula_peel, same]
  rfl

end Term

namespace Arena

variable {A : Arena} {t s : Term} {p q : Option Handle} {depth : Nat} {xs ys : List Term}

/-- A comparison answers, and the answer is whether a statement holds. -/
def Decides (result : Checked Bool) (statement : Prop) : Prop :=
  ∃ answer, result = .ok answer ∧ (answer = true ↔ statement)

theorem Decides.congr {result : Checked Bool} {P Q : Prop} (decides : Decides result P) (same : P ↔ Q) :
    Decides result Q := by
  obtain ⟨answer, answered, correct⟩ := decides
  exact ⟨answer, answered, correct.trans same⟩

theorem Decides.eq_ok_true_iff {result : Checked Bool} {P : Prop} (decides : Decides result P) :
    result = .ok true ↔ P := by
  obtain ⟨answer, rfl, correct⟩ := decides
  rw [← correct, Except.ok.injEq]

theorem decides_pure (P : Prop) [Decidable P] : Decides (pure (decide P)) P :=
  ⟨decide P, rfl, decide_eq_true_iff⟩

theorem decides_false {P : Prop} (never : ¬ P) : Decides (pure false) P :=
  ⟨false, rfl, by simpa using never⟩

/-! ### Pairing off -/

theorem eraseFirst?_terms {test : Handle → Checked Bool} {a : Formula.Arrangement}
    (decides : ∀ y ∈ ys, Decides (test y.handle) (a = y.arrangement)) :
    (eraseFirst? test (ys.map Term.handle) = .ok none ∧ a ∉ ys.map Term.arrangement) ∨
      ∃ before y after, ys = before ++ y :: after ∧ a = y.arrangement ∧
        eraseFirst? test (ys.map Term.handle) = .ok (some ((before ++ after).map Term.handle)) := by
  induction ys with
  | nil => exact Or.inl ⟨rfl, List.not_mem_nil⟩
  | cons y later ih =>
    obtain ⟨answer, tested, correct⟩ := decides y List.mem_cons_self
    rw [List.map_cons, eraseFirst?, tested]
    cases answer with
    | true => exact Or.inr ⟨[], y, later, rfl, correct.mp rfl, rfl⟩
    | false =>
      have other : a ≠ y.arrangement := fun same => Bool.false_ne_true (correct.mpr same)
      rcases ih fun z member => decides z (List.mem_cons_of_mem _ member) with
        ⟨erased, absent⟩ | ⟨before, z, after, rfl, same, erased⟩
      · refine Or.inl ⟨?_, ?_⟩
        · simp [bind, Except.bind, pure, Except.pure, erased]
        · simpa [other] using absent
      · refine Or.inr ⟨y :: before, z, after, rfl, same, ?_⟩
        simp only [bind, Except.bind, pure, Except.pure, Bool.false_eq_true, if_false, erased]
        rfl

/-- Pairing off succeeds if and only if one list has, up to rearrangement, no more of anything than the
other. -/
theorem pairOff_terms {same : Handle → Handle → Checked Bool}
    (decides : ∀ x ∈ xs, ∀ y ∈ ys, Decides (same x.handle y.handle) (x.arrangement = y.arrangement)) :
    Decides (pairOff same (xs.map Term.handle) (ys.map Term.handle))
      ((xs.map Term.arrangement).Subperm (ys.map Term.arrangement)) := by
  induction xs generalizing ys with
  | nil => exact ⟨true, rfl, by simp⟩
  | cons x later ih =>
    rw [List.map_cons, List.map_cons, pairOff]
    rcases eraseFirst?_terms (decides x List.mem_cons_self) with
      ⟨erased, absent⟩ | ⟨before, y, after, rfl, equal, erased⟩
    · rw [erased]
      exact decides_false fun subperm => absent (subperm.subset List.mem_cons_self)
    · rw [erased]
      have decides' : ∀ x ∈ later, ∀ y ∈ before ++ after,
          Decides (same x.handle y.handle) (x.arrangement = y.arrangement) := by
        intro x member y inside
        apply decides x (List.mem_cons_of_mem _ member) y
        rw [List.mem_append] at inside
        simp [inside.imp_right Or.inr]
      refine (ih decides').congr ?_
      -- What is left on the right is what was there, less one member of the class that was looked for.
      have middle : ((before ++ y :: after).map Term.arrangement).Perm
          (x.arrangement :: (before ++ after).map Term.arrangement) := by
        rw [equal, ← List.map_cons]
        exact List.perm_middle.map _
      rw [middle.subperm_left, List.subperm_cons]

theorem pairOff_perm {same : Handle → Handle → Checked Bool}
    (decides : ∀ x ∈ xs, ∀ y ∈ ys, Decides (same x.handle y.handle) (x.arrangement = y.arrangement)) :
    Decides
      (if (xs.map Term.handle).length = (ys.map Term.handle).length then
        pairOff same (xs.map Term.handle) (ys.map Term.handle)
      else pure false)
      ((xs.map Term.arrangement).Perm (ys.map Term.arrangement)) := by
  split
  · rename_i lengths
    refine (pairOff_terms decides).congr ⟨fun subperm => subperm.perm_of_length_le ?_, List.Perm.subperm⟩
    rw [List.length_map, List.length_map] at lengths ⊢
    omega
  · rename_i lengths
    refine decides_false fun perm => lengths ?_
    simpa using perm.length_eq

/-! ### Comparing -/

def ComparesTo (A : Arena) (depth : Nat) : Prop :=
  ∀ ⦃p q : Option Handle⦄ ⦃t s : Term⦄, A.Holds p t → A.Holds q s → t.size < A.bound → s.size < A.bound →
    t.size ≤ depth → Decides (A.acEqTo depth t.handle s.handle) (t.arrangement = s.arrangement)

theorem ComparesTo.chain {h k : Handle} {op : Connective} {l r l' r' : Term} (compares : A.ComparesTo depth)
    (left : A.Holds p (.binary h op l r)) (right : A.Holds q (.binary k op l' r'))
    (small : (Term.binary h op l r).size < A.bound) (small' : (Term.binary k op l' r').size < A.bound)
    (deep : (Term.binary h op l r).size ≤ depth + 1) :
    Decides
      (do let xs ← A.chainOperands h op
          let ys ← A.chainOperands k op
          if xs.length = ys.length then pairOff (A.acEqTo depth) xs ys else return false)
      ((Term.binary h op l r).arrangement = (Term.binary k op l' r').arrangement) := by
  have operands := chainOperands_term op left small
  have operands' := chainOperands_term op right small'
  have pairs : ∀ x ∈ (Term.binary h op l r).operands op, ∀ y ∈ (Term.binary k op l' r').operands op,
      Decides (A.acEqTo depth x.handle y.handle) (x.arrangement = y.arrangement) := by
    intro x member y member'
    have less := Term.size_lt_of_mem_operands member
    have less' := Term.size_lt_of_mem_operands member'
    obtain ⟨u, below⟩ := Term.operand_mem_subterms p member
    obtain ⟨v, below'⟩ := Term.operand_mem_subterms q member'
    exact compares (left.subterm below) (right.subterm below') (by omega) (by omega) (by omega)
  have paired := pairOff_perm pairs
  rw [Term.map_arrangement_operands, Term.map_arrangement_operands] at paired
  rw [Term.handle_binary] at operands operands'
  rw [operands, operands']
  exact paired.congr (Formula.arrangement_eq_iff_perm op).symm

theorem comparesTo (A : Arena) (depth : Nat) : A.ComparesTo depth := by
  induction depth with
  | zero =>
    intro p q t s left right small small' deep
    exact absurd t.size_pos (by omega)
  | succ depth ih =>
    intro p q t s left right small small' deep
    obtain ⟨p', inside⟩ := t.peel_mem_subterms p
    obtain ⟨q', inside'⟩ := s.peel_mem_subterms q
    have peeled := left.subterm inside
    have peeled' := right.subterm inside'
    have smaller := t.size_peel_le
    have smaller' := s.size_peel_le
    rw [acEqTo, peel_term left small, peel_term right small', ← t.arrangement_peel, ← s.arrangement_peel]
    simp only [bind, Except.bind, peeled.shape, peeled'.shape]
    have differ : t.peel.formula.core ≠ s.peel.formula.core →
        Decides (pure false) (t.peel.arrangement = s.peel.arrangement) :=
      fun different => decides_false fun same => different (Formula.core_eq_of_arrangement_eq same)
    have plain := t.peel_ne_parens
    have plain' := s.peel_ne_parens
    generalize t.peel = t' at *
    generalize s.peel = s' at *
    cases t' with
    | binary h op l r =>
      cases s' with
      | binary k op' l' r' =>
        by_cases equal : op = op'
        · subst equal
          have chained := ih.chain peeled peeled' (by omega) (by omega) (by omega)
          simp only [Term.shape, if_true]
          exact chained
        · simpa [Term.shape, equal] using differ (by simpa [Term.formula, Formula.core] using equal)
      | parens k inner => exact absurd rfl (plain' k inner)
      | _ => exact differ (by simp [Term.formula, Formula.core])
    | not h child =>
      cases s' with
      | not k child' =>
        rw [Term.size_not] at smaller smaller'
        have below := ih (peeled.child (c := child) (by simp [Term.children]))
          (peeled'.child (c := child') (by simp [Term.children])) (by omega) (by omega) (by omega)
        exact below.congr Formula.arrangement_not_eq_iff.symm
      | parens k inner => exact absurd rfl (plain' k inner)
      | _ => exact differ (by simp [Term.formula, Formula.core])
    | id h name =>
      cases s' with
      | id k name' => exact (decides_pure (name = name')).congr Formula.arrangement_id_eq_iff.symm
      | parens k inner => exact absurd rfl (plain' k inner)
      | _ => exact differ (by simp [Term.formula, Formula.core])
    | literal h value =>
      cases s' with
      | literal k value' => exact (decides_pure (value = value')).congr Formula.arrangement_literal_eq_iff.symm
      | parens k inner => exact absurd rfl (plain' k inner)
      | _ => exact differ (by simp [Term.formula, Formula.core])
    | parens h inner => exact absurd rfl (plain h inner)

theorem peel_root {h child : Handle} (read : A.shape h = .ok (.root child)) : A.peel h = .ok h := by
  rw [peel, bound, peelTo, read]
  rfl

end Arena

/-! ### Trees of nodes -/

/-- The tree of a node: that of a root with the formula below it, or a formula. -/
inductive Subtree where
  | root (body : Formula)
  | inner (formula : Formula)

namespace Subtree

/-- One step of rearranging, at any place but the root. -/
inductive Rearranges : Subtree → Subtree → Prop
  | root {f g : Formula} (step : f.Rearranges g) : Rearranges (.root f) (.root g)
  | inner {f g : Formula} (step : f.Rearranges g) : Rearranges (.inner f) (.inner g)

def isRoot : Subtree → Bool
  | root _ => true
  | inner _ => false

def formula : Subtree → Formula
  | root f | inner f => f

theorem rearranged_iff {x y : Subtree} : Relation.ReflTransGen Rearranges x y ↔
    x.isRoot = y.isRoot ∧ Relation.ReflTransGen Formula.Rearranges x.formula y.formula := by
  constructor
  · intro rearranged
    induction rearranged with
    | refl => exact ⟨rfl, .refl⟩
    | tail _ step ih =>
      cases step with
      | root step | inner step => exact ⟨ih.1, ih.2.tail step⟩
  · rintro ⟨tops, rearranged⟩
    cases x with
    | root f =>
      cases y with
      | root g => exact rearranged.lift root fun _ _ => .root
      | inner g => simp [isRoot] at tops
    | inner f =>
      cases y with
      | root g => simp [isRoot] at tops
      | inner g => exact rearranged.lift inner fun _ _ => .inner

end Subtree

namespace Arena

variable {A : Arena} {trees : List Tree} {a b : Handle} {t s : Term} {p q : Option Handle}

def subtree (A : Arena) (h : Handle) : Checked Subtree := do
  let f ← A.formula h
  match ← A.shape h with
  | .root _ => return .root f
  | _ => return .inner f

/-- How the subtree of a node is read: from a term right below the node, or from the term at the node. -/
def Shows (A : Arena) (h : Handle) (t : Term) : Subtree → Prop
  | .root f => A.shape h = .ok (.root t.handle) ∧ f = t.formula
  | .inner f => t.handle = h ∧ f = t.formula

theorem Represents.exists_subtree (represents : A.Represents trees) (live : A.isLive a = .ok true) :
    ∃ x t p, A.subtree a = .ok x ∧ A.Holds p t ∧ t.size < A.bound ∧ A.Shows a t x ∧
      ∀ σ, A.eval σ a = .ok (x.formula.eval σ) := by
  obtain ⟨f, read, -, -, evaluated⟩ := represents.readings live
  obtain ⟨n, held⟩ := cell?_of_isLive live
  rcases represents.locate_cell held with ⟨-, -, x, tree, rfl⟩ | ⟨C, t, rfl, rfl, rfl⟩
  · obtain ⟨top, holds, small⟩ := represents.tree tree
    obtain rfl := Except.ok.inj ((represents.formula_root tree).symm.trans read)
    refine ⟨.root x.body.formula, x.body, _, ?_, holds, small, ⟨shape_of_cell? top, rfl⟩, evaluated⟩
    rw [subtree, read, shape_of_cell? top]
    rfl
  · have same : f = t.formula := by
      rw [formula, fold_term_formula formulaShape represents.holds represents.size_lt_bound,
        fold_formulaShape] at read
      exact (Except.ok.inj read).symm
    subst same
    refine ⟨.inner t.formula, t, _, ?_, represents.holds, represents.size_lt_bound, ⟨rfl, rfl⟩, evaluated⟩
    rw [subtree, read, represents.holds.shape]
    cases t <;> rfl

theorem acEq_of_shows {x y : Subtree} (left : A.Holds p t) (right : A.Holds q s) (small : t.size < A.bound)
    (small' : s.size < A.bound) (first : A.Shows a t x) (second : A.Shows b s y) :
    Decides (A.acEq a b) (Relation.ReflTransGen Subtree.Rearranges x y) := by
  have enough : A.bound ≤ A.bound * A.bound := Nat.le_mul_of_pos_right _ (Nat.succ_pos _)
  obtain ⟨depth, deep⟩ : ∃ depth, A.bound * A.bound = depth + 1 := ⟨A.bound * A.bound - 1, by omega⟩
  have same : t.arrangement = s.arrangement ↔ Relation.ReflTransGen Formula.Rearranges t.formula s.formula :=
    Formula.arrangement_eq_iff
  rw [Subtree.rearranged_iff, acEq]
  cases x with
  | root f =>
    obtain ⟨read, rfl⟩ := first
    cases y with
    | root g =>
      obtain ⟨read', rfl⟩ := second
      rw [deep, acEqTo, peel_root read, peel_root read']
      simp only [bind, Except.bind, read, read']
      have compared := A.comparesTo depth left right small small' (by omega)
      exact compared.congr (by simpa [Subtree.isRoot, Subtree.formula] using same)
    | inner g =>
      obtain ⟨rfl, rfl⟩ := second
      rw [deep, acEqTo, peel_root read, peel_term right small']
      simp only [bind, Except.bind, read, shape_peel_term right]
      cases s.peel <;> exact decides_false (by simp [Subtree.isRoot])
  | inner f =>
    obtain ⟨rfl, rfl⟩ := first
    cases y with
    | root g =>
      obtain ⟨read', rfl⟩ := second
      rw [deep, acEqTo, peel_term left small, peel_root read']
      simp only [bind, Except.bind, shape_peel_term left, read']
      cases t.peel <;> exact decides_false (by simp [Subtree.isRoot])
    | inner g =>
      obtain ⟨rfl, rfl⟩ := second
      have compared := A.comparesTo (A.bound * A.bound) left right small small' (by omega)
      exact compared.congr (by simpa [Subtree.isRoot, Subtree.formula] using same)

/-- Comparing two live nodes answers whether the tree of one can be rearranged into the tree of the other. So
it is an equivalence of live nodes, and nodes that are the same have the same value. -/
theorem acEq_exact (wellFormed : A.WellFormed) :
    (∀ a b, A.isLive a = .ok true → A.isLive b = .ok true → ∃ x y, A.subtree a = .ok x ∧ A.subtree b = .ok y ∧
      Decides (A.acEq a b) (Relation.ReflTransGen Subtree.Rearranges x y)) ∧
    Equivalence (fun a b : {h // A.isLive h = .ok true} => A.acEq a b = .ok true) ∧
    ∀ a b, A.isLive a = .ok true → A.isLive b = .ok true → A.acEq a b = .ok true →
      ∀ σ, ∃ value, A.eval σ a = .ok value ∧ A.eval σ b = .ok value := by
  obtain ⟨trees, represents⟩ := wellFormed.exists_represents
  have tree : ∀ a : {h // A.isLive h = .ok true}, ∃ x t p, A.subtree a = .ok x ∧ A.Holds p t ∧
      t.size < A.bound ∧ A.Shows a t x ∧ ∀ σ, A.eval σ a = .ok (x.formula.eval σ) :=
    fun a => represents.exists_subtree a.2
  choose x t p read holds small shows evaluated using tree
  have decides := fun a b => acEq_of_shows (holds a) (holds b) (small a) (small b) (shows a) (shows b)
  have same := fun a b => (decides a b).eq_ok_true_iff
  refine ⟨fun a b live live' => ⟨_, _, read ⟨a, live⟩, read ⟨b, live'⟩, decides ⟨a, live⟩ ⟨b, live'⟩⟩,
    ⟨fun a => (same a a).mpr .refl, fun {a b} equal => ?_, fun {a b c} first second => ?_⟩,
    fun a b live live' equal σ => ?_⟩
  · obtain ⟨tops, rearranged⟩ := Subtree.rearranged_iff.mp ((same a b).mp equal)
    exact (same b a).mpr (Subtree.rearranged_iff.mpr ⟨tops.symm, Std.Symm.symm _ _ rearranged⟩)
  · exact (same a c).mpr (((same a b).mp first).trans ((same b c).mp second))
  · obtain ⟨-, rearranged⟩ := Subtree.rearranged_iff.mp ((same ⟨a, live⟩ ⟨b, live'⟩).mp equal)
    refine ⟨_, evaluated ⟨a, live⟩ σ, ?_⟩
    rw [Formula.eval_of_rearranged rearranged]
    exact evaluated ⟨b, live'⟩ σ

/-- An arena with the trees of `x OR y` and `(y) OR x`. -/
def regroupedPair : Arena where
  table :=
    { cells := #[.holding ⟨.id "x", some ⟨3⟩⟩, .holding ⟨.id "y", some ⟨3⟩⟩,
        .holding ⟨.binary .or ⟨1⟩ ⟨2⟩, some ⟨4⟩⟩, .holding ⟨.root ⟨3⟩, none⟩, .holding ⟨.id "y", some ⟨6⟩⟩,
        .holding ⟨.parens ⟨5⟩, some ⟨8⟩⟩, .holding ⟨.id "x", some ⟨8⟩⟩,
        .holding ⟨.binary .or ⟨6⟩ ⟨7⟩, some ⟨9⟩⟩, .holding ⟨.root ⟨8⟩, none⟩]
      count := 9 }
  roots := [⟨4⟩, ⟨9⟩]

theorem regroupedPair_wellFormed : regroupedPair.WellFormed := by
  let first : Term := .binary ⟨3⟩ .or (.id ⟨1⟩ "x") (.id ⟨2⟩ "y")
  let second : Term := .binary ⟨8⟩ .or (.parens ⟨6⟩ (.id ⟨5⟩ "y")) (.id ⟨7⟩ "x")
  have represents : regroupedPair.Represents [⟨⟨4⟩, first⟩, ⟨⟨9⟩, second⟩] := by
    refine ⟨⟨?_, ?_, ?_, ?_, ?_⟩, ?_⟩
    · rintro ⟨i⟩ n
      rcases i with _ | _ | _ | _ | _ | _ | _ | _ | _ | _ | i <;>
        simp [cell?, regroupedPair, Table.value?, Table.Entry.value?, forestCells, Tree.cells, first, second,
          Term.cells, Term.handle, eq_comm]
    · simp [forestCells, Tree.cells, first, second, Term.cells, Term.handle]
    · exact List.nodup_nil
    · intro i
      rcases i with _ | _ | _ | _ | _ | _ | _ | _ | _ | _ | i <;>
        simp [regroupedPair, Table.free, Table.linkedFrom, Table.value?, Table.Entry.value?, Table.size]
    · rfl
    · simp [regroupedPair, eq_comm]
  exact represents.wellFormed

theorem acEq_exact_regroupedPair : ∃ x y,
    regroupedPair.subtree ⟨4⟩ = .ok x ∧ regroupedPair.subtree ⟨9⟩ = .ok y ∧
    regroupedPair.acEq ⟨4⟩ ⟨9⟩ = .ok true ∧ Relation.ReflTransGen Subtree.Rearranges x y := by
  obtain ⟨x, y, left, right, answer, compared, correct⟩ :=
    (acEq_exact regroupedPair_wellFormed).1 ⟨4⟩ ⟨9⟩ rfl rfl
  have same : regroupedPair.acEq ⟨4⟩ ⟨9⟩ = .ok true := by decide +kernel
  exact ⟨x, y, left, right, same, correct.mp (Except.ok.inj (compared.symm.trans same))⟩

end Arena

end Propositional
