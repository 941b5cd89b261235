import Propositional.Proofs.Arena.Entry
import Propositional.Proofs.Formula.Fixpoint
import Propositional.Proofs.Optimizer.Run

/-!
# When one pass is enough

Without the rule that drops parentheses, one pass with settled replacements is enough for every tree if
and only if literals are not folded before chains are reduced. In the other order the rules lift a
parenthesized chain out of a longer one, and offer the parentheses again but not the chain in them.
-/

namespace Propositional

open Formula (ReducesFirst firstDraft doubled lifting)

namespace Optimizer

variable {rules : List Rule} {laws : List Law} {rule : Rule} {law : Law}

/-- Chains are reduced, but not before literals have been folded. -/
def FoldsFirst (rules : List Rule) : Prop :=
  ∃ before after, rules = before ++ Rule.literalOperand :: after ∧ Rule.chainReduction ∉ before ∧
    Rule.chainReduction ∈ after

/-! ### The order of the laws -/

theorem paired_iff : Paired rule law ↔
    rule = Rule.deMorgan ∧ law = Law.deMorgan ∨ rule = Rule.invertLiteral ∧ law = Law.invertLiteral ∨
      rule = Rule.doubleNegation ∧ law = Law.doubleNegation ∨ rule = Rule.literalOperand ∧ law = Law.literalOperand ∨
      rule = Rule.chainReduction ∧ law = Law.chainReduction ∨ rule = Rule.dropParens ∧ law = Law.dropParens := by
  simp only [Paired, Rule.builtin, Law.builtin, List.zip_cons_cons, List.zip_nil_right, List.mem_cons,
    Prod.mk.injEq, List.not_mem_nil, or_false]

theorem ne_of_name_ne {other : Rule} (different : rule.name ≠ other.name) : rule ≠ other :=
  fun same => different (congrArg Rule.name same)

theorem Paired.cases (paired : Paired rule law) :
    rule = Rule.chainReduction ∧ law = Law.chainReduction ∨
      rule = Rule.literalOperand ∧ law = Law.literalOperand ∨
      (rule ≠ Rule.chainReduction ∧ rule ≠ Rule.literalOperand ∧
        ∀ above op l r, law above (.binary op l r) = none) := by
  rcases paired_iff.mp paired with
    ⟨rfl, rfl⟩ | ⟨rfl, rfl⟩ | ⟨rfl, rfl⟩ | ⟨rfl, rfl⟩ | ⟨rfl, rfl⟩ | ⟨rfl, rfl⟩
  case inr.inr.inr.inl => exact Or.inr (Or.inl ⟨rfl, rfl⟩)
  case inr.inr.inr.inr.inl => exact Or.inl ⟨rfl, rfl⟩
  all_goals exact Or.inr (Or.inr ⟨ne_of_name_ne (by decide), ne_of_name_ne (by decide), fun _ _ _ _ => rfl⟩)

theorem Paired.eq_chainReduction_iff (paired : Paired rule law) :
    law = Law.chainReduction ↔ rule = Rule.chainReduction := by
  have different : law none doubled = none → law ≠ Law.chainReduction := by
    rintro nothing rfl
    exact Formula.chainReduction_doubled nothing
  rcases paired.cases with ⟨rfl, rfl⟩ | ⟨rfl, rfl⟩ | ⟨other, -, nothing⟩
  · exact iff_of_true rfl rfl
  · exact iff_of_false (different rfl) (ne_of_name_ne (by decide))
  · exact iff_of_false (different (nothing _ _ _ _)) other

theorem chainReduction_mem_iff (paired : List.Forall₂ Paired rules laws) :
    Law.chainReduction ∈ laws ↔ Rule.chainReduction ∈ rules := by
  induction paired with
  | nil => simp
  | cons pair later ih => rw [List.mem_cons, List.mem_cons, ih, eq_comm, pair.eq_chainReduction_iff, eq_comm]

theorem Paired.eq_dropParens (paired : Paired rule Law.dropParens) : rule = Rule.dropParens := by
  have alone : Law.dropParens none (.parens doubled) ≠ none := nofun
  rcases paired_iff.mp paired with ⟨-, same⟩ | ⟨-, same⟩ | ⟨-, same⟩ | ⟨-, same⟩ | ⟨-, same⟩ | ⟨rfl, -⟩
  case inr.inr.inr.inr.inr => rfl
  all_goals exact absurd (congrFun (congrFun same none) (.parens doubled)) alone

theorem dropParens_not_mem (paired : List.Forall₂ Paired rules laws) (kept : Rule.dropParens ∉ rules) :
    Law.dropParens ∉ laws := by
  intro member
  obtain ⟨i, inside, same⟩ := List.mem_iff_getElem.mp member
  have pair := paired.get (paired.length_eq ▸ inside) inside
  rw [List.get_eq_getElem, List.get_eq_getElem, same] at pair
  exact kept (pair.eq_dropParens ▸ List.getElem_mem _)

theorem reducesFirst_of_not_foldsFirst (paired : List.Forall₂ Paired rules laws) (order : ¬ FoldsFirst rules) :
    ReducesFirst laws := by
  induction paired with
  | nil => exact fun member => absurd member List.not_mem_nil
  | @cons rule law rules laws pair later ih =>
    intro member above f d proposed
    rcases pair.cases with ⟨rfl, rfl⟩ | ⟨rfl, rfl⟩ | ⟨other, -, nothing⟩
    · rw [firstDraft, List.findSome?_cons, proposed]
    · have present := (chainReduction_mem_iff (.cons pair later)).mp member
      rcases List.mem_cons.mp present with same | present
      · exact absurd same (ne_of_name_ne (by decide))
      · exact absurd ⟨[], rules, rfl, List.not_mem_nil, present⟩ order
    · have order' : ¬ FoldsFirst rules := by
        rintro ⟨before, after, rfl, absent, present⟩
        exact order ⟨rule :: before, after, rfl, by simp [Ne.symm other, absent], present⟩
      have present : Law.chainReduction ∈ laws := by
        rcases List.mem_cons.mp member with same | present
        · exact absurd (pair.eq_chainReduction_iff.mp same.symm) other
        · exact present
      have first := ih order' present above f d proposed
      obtain ⟨op, l, r, rfl, -⟩ := Law.chainReduction_eq_some proposed
      rw [firstDraft, List.findSome?_cons, nothing]
      exact first

theorem firstDraft_lifting_of_foldsFirst (paired : List.Forall₂ Paired rules laws) (order : FoldsFirst rules) :
    Law.chainReduction ∈ laws ∧ firstDraft laws none lifting = some (.moved (.parens doubled)) := by
  obtain ⟨before, after, rfl, absent, present⟩ := order
  refine ⟨(chainReduction_mem_iff paired).mpr (by simp [present]), ?_⟩
  induction before generalizing laws with
  | nil =>
    obtain ⟨law, laws, pair, -, rfl⟩ := List.forall₂_cons_left_iff.mp paired
    rcases pair.cases with ⟨same, -⟩ | ⟨-, rfl⟩ | ⟨-, other, -⟩
    · exact absurd same (ne_of_name_ne (by decide))
    · rfl
    · exact absurd rfl other
  | cons rule before ih =>
    obtain ⟨law, laws, pair, later, rfl⟩ := List.forall₂_cons_left_iff.mp paired
    rcases pair.cases with ⟨rfl, -⟩ | ⟨-, rfl⟩ | ⟨-, -, nothing⟩
    · exact absurd List.mem_cons_self absent
    · rfl
    · have first := ih later fun member => absent (List.mem_cons_of_mem _ member)
      rw [firstDraft, List.findSome?_cons, lifting, nothing]
      exact first

/-! ### Second passes -/

variable {o : Optimizer}

/-- In every arena, a second pass over a root replaces nothing and leaves the arena as it is. -/
def SettlesAtOnce (o : Optimizer) : Prop :=
  ∀ (A : Arena) (root : Handle) (verbosity : Verbosity), A.WellFormed → root ∈ A.roots →
    ∃ B j k, o.runPass verbosity A root = .ok (B, j) ∧ o.runPass verbosity B root = .ok (B, k) ∧
      k.replacements = 0

section Kept

variable (library : ∀ rule ∈ o.rules, rule ∈ Rule.builtin) (kept : Rule.dropParens ∉ o.rules)
  (settling : o.settle = true)

include library kept settling

theorem settlesAtOnce_of_not_foldsFirst (order : ¬ FoldsFirst o.rules) : o.SettlesAtOnce := by
  intro A root verbosity wellFormed listed
  obtain ⟨trees, represents⟩ := wellFormed.exists_represents
  obtain ⟨before, after, t, rfl⟩ := exists_top represents listed
  obtain ⟨laws, paired⟩ := exists_paired library
  obtain ⟨follows, members⟩ := follows_of_paired paired
  obtain ⟨B, j, s, ran, represented, passed, -⟩ := runPass_root follows members represents verbosity
  obtain ⟨C, k, -, ran', -, -, idle_iff, same⟩ := runPass_root follows members represented verbosity
  rw [settling] at passed
  have idle := idle_iff.mpr (Formula.inert_of_pass members (dropParens_not_mem paired kept)
    (reducesFirst_of_not_foldsFirst paired order) passed)
  obtain rfl := same idle
  exact ⟨C, j, k, ran, ran', idle⟩

theorem second_pass_lifting (order : FoldsFirst o.rules) (verbosity : Verbosity) :
    ∃ root A B C j k, ({} : Arena).enter "TRUE AND (x AND x)" = .ok (.ok root, A) ∧ A.WellFormed ∧
      root ∈ A.roots ∧ o.runPass verbosity A root = .ok (B, j) ∧ o.runPass verbosity B root = .ok (C, k) ∧
      k.replacements ≠ 0 := by
  have read : Formula.read "TRUE AND (x AND x)" = .ok lifting := by decide +kernel
  obtain ⟨⟨root, t⟩, A, entered, formula, represents, -, roots⟩ := Arena.represents_empty.enter_ok read
  have placed : A.Represents ((Place.top [] root []).fill t) := represents
  obtain ⟨laws, paired⟩ := exists_paired library
  obtain ⟨follows, members⟩ := follows_of_paired paired
  obtain ⟨present, folded⟩ := firstDraft_lifting_of_foldsFirst paired order
  obtain ⟨B, j, s, ran, represented, passed, -⟩ := runPass_root follows members placed verbosity
  obtain ⟨C, k, -, ran', -, -, idle_iff, -⟩ := runPass_root follows members represented verbosity
  rw [settling, show t.formula = lifting from formula] at passed
  have left : s.formula = .parens doubled :=
    Formula.pass_lifting members (dropParens_not_mem paired kept) folded passed
  refine ⟨root, A, B, C, j, k, entered, represents.wellFormed, ?_, ran, ran', fun idle => ?_⟩
  · rw [roots]
    exact List.mem_append_right _ (List.mem_singleton_self root)
  · exact Formula.not_inert_doubled present (left ▸ idle_iff.mp idle)

/-- Without the rule that drops parentheses, a pass with settled replacements leaves nothing to do for a
second one, if and only if the rules do not fold literals before they reduce chains. -/
theorem settlesAtOnce_iff : o.SettlesAtOnce ↔ ¬ FoldsFirst o.rules := by
  refine ⟨fun settles order => ?_, settlesAtOnce_of_not_foldsFirst library kept settling⟩
  obtain ⟨root, A, B, C, j, k, -, wellFormed, listed, ran, ran', busy⟩ :=
    second_pass_lifting library kept settling order .silent
  obtain ⟨B', j', k', first, second, idle⟩ := settles A root .silent wellFormed listed
  obtain ⟨rfl, -⟩ := Prod.mk.inj (Except.ok.inj (ran.symm.trans first))
  obtain ⟨-, rfl⟩ := Prod.mk.inj (Except.ok.inj (ran'.symm.trans second))
  exact busy idle

end Kept

/-- Two rules of the library, in the order in which `Rule.builtin` has them. -/
def foldingFirst : Optimizer where
  rules := [Rule.literalOperand, Rule.chainReduction]

def reducingFirst : Optimizer where
  rules := [Rule.chainReduction, Rule.literalOperand]

theorem foldingFirst_folds : FoldsFirst foldingFirst.rules :=
  ⟨[], [Rule.chainReduction], rfl, List.not_mem_nil, List.mem_singleton_self _⟩

theorem reducingFirst_folds_not : ¬ FoldsFirst reducingFirst.rules := by
  rintro ⟨before, after, split, absent, -⟩
  cases before with
  | nil => exact absurd (List.cons.inj split).1 (ne_of_name_ne (by decide))
  | cons rule before =>
    rw [← (List.cons.inj split).1] at absent
    exact absent List.mem_cons_self

theorem dropParens_not_mem_pair :
    Rule.dropParens ∉ foldingFirst.rules ∧ Rule.dropParens ∉ reducingFirst.rules := by
  have first : Rule.dropParens ≠ Rule.literalOperand := ne_of_name_ne (by decide)
  have second : Rule.dropParens ≠ Rule.chainReduction := ne_of_name_ne (by decide)
  simp [foldingFirst, reducingFirst, first, second]

theorem settlesAtOnce_iff_pair : reducingFirst.SettlesAtOnce ∧ ¬ foldingFirst.SettlesAtOnce := by
  obtain ⟨keptFolding, keptReducing⟩ := dropParens_not_mem_pair
  constructor
  · exact (settlesAtOnce_iff (by simp [reducingFirst, Rule.builtin]) keptReducing rfl).mpr reducingFirst_folds_not
  · intro settles
    exact (settlesAtOnce_iff (by simp [foldingFirst, Rule.builtin]) keptFolding rfl).mp settles foldingFirst_folds

/-- A second pass over `TRUE AND (x AND x)` replaces something. -/
theorem foldingFirst_second_pass : ∃ root A B C j k,
    ({} : Arena).enter "TRUE AND (x AND x)" = .ok (.ok root, A) ∧
      foldingFirst.runPass .silent A root = .ok (B, j) ∧ foldingFirst.runPass .silent B root = .ok (C, k) ∧
      k.replacements ≠ 0 := by
  obtain ⟨root, A, B, C, j, k, entered, -, -, ran, ran', busy⟩ := second_pass_lifting (o := foldingFirst)
    (by simp [foldingFirst, Rule.builtin]) dropParens_not_mem_pair.1 rfl foldingFirst_folds .silent
  exact ⟨root, A, B, C, j, k, entered, ran, ran', busy⟩

end Optimizer

end Propositional
