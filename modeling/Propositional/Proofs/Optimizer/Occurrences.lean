import Propositional.Proofs.Arena.RoundTrip
import Propositional.Proofs.Optimizer.Run

/-!
# Names that runs leave

A law drops some occurrences of names and keeps the others in their order: no name comes in, none is
doubled and none is moved past another. Passes do the same to the tree below a root, and so do passes
until one replaces nothing.
-/

namespace Propositional

namespace Formula

variable {op : Connective} {fs : List Formula}

theorem occurrences_peel (f : Formula) : f.peel.occurrences = f.occurrences := by
  induction f with
  | parens inner ih => exact ih
  | _ => rfl

theorem flatMap_occurrences_operands (op : Connective) (f : Formula) :
    (f.operands op).flatMap occurrences = f.occurrences := by
  induction f with
  | parens inner ih => exact ih
  | binary op' left right ihl ihr =>
    rw [operands]
    split
    · rw [List.flatMap_append, ihl, ihr, occurrences]
    · exact List.flatMap_singleton occurrences _
  | _ => exact List.flatMap_singleton occurrences _

theorem occurrences_chain (op : Connective) (fs : List Formula) :
    (chain op fs).occurrences = fs.flatMap occurrences := by
  induction fs using List.reverseRecOn with
  | nil => rfl
  | append_singleton fs f ih =>
    by_cases empty : fs = []
    · simp [empty, chain]
    · rw [chain_append_singleton empty, occurrences, ih, List.flatMap_append, List.flatMap_singleton]

end Formula

/-! ### Laws -/

namespace Law

variable {above : Option Connective} {f : Formula} {d : Draft Formula}

theorem occurrences_absorb (op : Connective) (value : Bool) (other : Formula) :
    (absorb op value other).formula.occurrences.Sublist other.occurrences := by
  unfold absorb
  split
  · exact List.Sublist.refl _
  · exact List.nil_sublist _

theorem occurrences_reduced (op : Connective) (f : Formula) :
    (reduced op (f.operands op)).formula.occurrences.Sublist f.occurrences := by
  unfold reduced
  split
  · exact List.nil_sublist _
  · rw [Draft.formula_chain, Formula.occurrences_chain, ← Formula.flatMap_occurrences_operands op f]
    exact (eraseDups_sublist _).flatMap Formula.occurrences

/-- Every law leaves some of the names, in their order. -/
theorem occurrences_of_mem_builtin {law : Law} (member : law ∈ builtin) (drafted : law above f = some d) :
    d.formula.occurrences.Sublist f.occurrences := by
  simp only [builtin, List.mem_cons, List.not_mem_nil, or_false] at member
  rcases member with rfl | rfl | rfl | rfl | rfl | rfl
  · obtain ⟨g, op, left, right, rfl, peeled, rfl⟩ := deMorgan_eq_some drafted
    rw [Formula.occurrences, ← g.occurrences_peel, peeled]
    exact List.Sublist.refl _
  · obtain ⟨g, value, rfl, -, rfl⟩ := invertLiteral_eq_some drafted
    exact List.nil_sublist _
  · obtain ⟨g, inner, rfl, peeled, rfl⟩ := doubleNegation_eq_some drafted
    rw [Formula.occurrences, ← g.occurrences_peel, peeled]
    exact List.Sublist.refl _
  · obtain ⟨op, left, right, value, rfl, ⟨-, rfl⟩ | ⟨-, rfl⟩⟩ := literalOperand_eq_some drafted
    · exact (occurrences_absorb op value right).trans (List.sublist_append_right _ _)
    · exact (occurrences_absorb op value left).trans (List.sublist_append_left _ _)
  · obtain ⟨op, left, right, -, -, rfl, -⟩ := chainReduction_eq_some drafted
    exact occurrences_reduced op f
  · obtain ⟨g, rfl, rfl⟩ := dropParens_eq_some drafted
    exact List.Sublist.refl _

end Law

theorem congruent_occurrences : Congruent fun f _ g => g.occurrences.Sublist f.occurrences where
  refl _ := List.Sublist.refl _
  trans first second := second.trans first
  binary left right := left.append right
  not below := below
  parens below := below

/-! ### Runs -/

theorem Arena.Represents.occurrences_root {A : Arena} {trees : List Tree} {x : Tree}
    (represents : A.Represents trees) (tree : x ∈ trees) :
    A.occurrences x.root = .ok x.body.formula.occurrences := by
  have collected := x.body.formula.fold_occurrences []
  rw [List.append_nil] at collected
  rw [occurrences_eq, represents.fold_root_formula tree, ← collected]
  rfl

namespace Optimizer

variable {o : Optimizer} {A B : Arena}

/-- From one arena to the other, some occurrences of names below a root have gone, and the others are as
they were and in the order in which they were. -/
def ThinsOut (A B : Arena) (root : Handle) : Prop :=
  ∃ names left, A.occurrences root = .ok names ∧ B.occurrences root = .ok left ∧ left.Sublist names

theorem thinsOut_of_formula {before after : List Tree} {root : Handle} {t s : Term}
    (first : A.Represents ((Place.top before root after).fill t))
    (second : B.Represents ((Place.top before root after).fill s))
    (fewer : s.formula.occurrences.Sublist t.formula.occurrences) : ThinsOut A B root :=
  ⟨_, _, first.occurrences_root (x := ⟨root, t⟩) (by simp [Place.fill]),
    second.occurrences_root (x := ⟨root, s⟩) (by simp [Place.fill]), fewer⟩

/-- An optimizer with rules of the library, in any order and any number, leaves below a root some of the
names that were there, in their order, after one pass and after passes until one replaces nothing. -/
theorem run_thins_out (wellFormed : A.WellFormed) (library : ∀ rule ∈ o.rules, rule ∈ Rule.builtin)
    (verbosity : Verbosity) {root : Handle} (listed : root ∈ A.roots) :
    (∃ B j, o.runPass verbosity A root = .ok (B, j) ∧ ThinsOut A B root) ∧
      ∃ B j, o.runUntilStable verbosity A root = .ok (B, j) ∧ ThinsOut A B root := by
  obtain ⟨trees, represents⟩ := wellFormed.exists_represents
  obtain ⟨laws, follows, members⟩ := exists_laws library
  obtain ⟨before, after, t, rfl⟩ := exists_top represents listed
  have step : ∀ law ∈ laws, ∀ above f d, law above f = some d → d.formula.occurrences.Sublist f.occurrences :=
    fun law member _ _ _ drafted => Law.occurrences_of_mem_builtin (members law member) drafted
  constructor
  · obtain ⟨B, j, s, ran, represented, -, fewer, -⟩ := runPass_keeps congruent_occurrences step follows members
      represents (Or.inr ⟨rfl, rfl⟩) verbosity
    exact ⟨B, j, ran, thinsOut_of_formula represents represented fewer⟩
  · obtain ⟨B, j, s, n, ran, represented, -, fewer, -⟩ := passesUntilStable_keeps congruent_occurrences step follows
      members represents rfl verbosity o.maxPasses 0 {}
    exact ⟨B, j, ran, thinsOut_of_formula represents represented fewer⟩

theorem run_thins_out_doubled : ∃ root A B j left,
    ({} : Arena).enter "x AND (y OR FALSE AND z) AND x" = .ok (.ok root, A) ∧
      ({} : Optimizer).runUntilStable .trace A root = .ok (B, j) ∧ B.occurrences root = .ok left ∧
      left.Sublist ["x", "y", "z", "x"] := by
  have read : Formula.read "x AND (y OR FALSE AND z) AND x" = .ok (.binary .and (.binary .and (.id "x")
      (.parens (.binary .or (.id "y") (.binary .and (.literal false) (.id "z"))))) (.id "x")) := by decide +kernel
  obtain ⟨x, A, entered, formula, represents, -, roots⟩ := Arena.represents_empty.enter_ok read
  have listed : x.root ∈ A.roots := by
    rw [roots]
    exact List.mem_append_right _ (List.mem_singleton_self _)
  obtain ⟨-, B, j, ran, names, left, before, after, fewer⟩ :=
    run_thins_out (o := {}) represents.wellFormed (fun _ member => member) .trace listed
  rw [represents.occurrences_root (by simp), formula] at before
  obtain rfl := Except.ok.inj before
  exact ⟨x.root, A, B, j, left, entered, ran, after, fewer⟩

end Optimizer

end Propositional
