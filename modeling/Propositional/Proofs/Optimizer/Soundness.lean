import Propositional.Proofs.Optimizer.Run

/-!
# Optimizers keep values

Each law keeps the value of the formula that it changes, under every assignment. So do passes over
well-formed arenas, for all formulas in the arena at once.
-/

namespace Propositional.Optimizer

variable {o : Optimizer} {A B : Arena} {C : Place} {t s : Term}

/-- The arenas have the same roots, and each root has the same value in both. -/
def SameValues (A B : Arena) : Prop :=
  B.roots = A.roots ∧
    ∀ root ∈ A.roots, ∀ σ, ∃ value, A.eval σ root = .ok value ∧ B.eval σ root = .ok value

theorem eval_root {trees : List Tree} {x : Tree} (represents : A.Represents trees) (tree : x ∈ trees)
    (σ : String → Bool) : A.eval σ x.root = .ok (x.body.formula.eval σ) := by
  rw [Arena.eval, represents.fold_root_formula tree, Formula.fold_evalShape]
  rfl

theorem sameValues_of_eval (before : A.Represents (C.fill t)) (after : B.Represents (C.fill s))
    (roots : B.roots = A.roots) (same : ∀ σ, s.formula.eval σ = t.formula.eval σ) : SameValues A B := by
  refine ⟨roots, fun root listed σ => ?_⟩
  have plugged : (C.plug s).formula.eval σ = (C.plug t).formula.eval σ :=
    (congruent_eval σ).plug (n := 0) C (same σ)
  rw [C.fill_eq] at before after
  obtain ⟨x, tree, rfl⟩ := (before.mem_roots root).mp listed
  rw [List.mem_append, List.mem_cons] at tree
  rcases tree with tree | rfl | tree
  · exact ⟨_, eval_root before (by simp [tree]) σ, eval_root after (by simp [tree]) σ⟩
  · refine ⟨_, eval_root before (by simp) σ, ?_⟩
    rw [← plugged]
    exact eval_root (x := ⟨C.root, C.plug s⟩) after (by simp) σ
  · exact ⟨_, eval_root before (by simp [tree]) σ, eval_root after (by simp [tree]) σ⟩

theorem congruent_sameValue : Congruent fun f _ g => ∀ σ, g.eval σ = f.eval σ where
  refl _ _ := rfl
  trans first second σ := (congruent_eval σ).trans (n := 0) (m := 0) (first σ) (second σ)
  binary left right σ := (congruent_eval σ).binary (n := 0) (m := 0) (left σ) (right σ)
  not below σ := (congruent_eval σ).not (n := 0) (below σ)
  parens below σ := below σ

/-- An optimizer with rules of the library, in any order and any number, ends every pass from a live
node and every search for a stable tree below a root, and no root has another value afterwards. -/
theorem run_keeps_values (wellFormed : A.WellFormed) (library : ∀ rule ∈ o.rules, rule ∈ Rule.builtin)
    (verbosity : Verbosity) :
    (∀ start, A.isLive start = .ok true →
      ∃ B j, o.runPass verbosity A start = .ok (B, j) ∧ SameValues A B) ∧
    ∀ root ∈ A.roots, ∃ B j, o.runUntilStable verbosity A root = .ok (B, j) ∧ SameValues A B := by
  obtain ⟨trees, represents⟩ := wellFormed.exists_represents
  obtain ⟨laws, follows, members⟩ := exists_laws library
  have step : ∀ law ∈ laws, ∀ above f d, law above f = some d → ∀ σ, d.formula.eval σ = f.eval σ :=
    fun law member _ _ _ drafted => Law.eval_of_mem_builtin (members law member) drafted
  refine ⟨fun start live => ?_, fun root listed => ?_⟩
  · obtain ⟨C, t, rfl, covers⟩ := exists_covers represents live
    obtain ⟨B, j, s, ran, represented, roots, same, -⟩ :=
      runPass_keeps congruent_sameValue step follows members represents covers verbosity
    exact ⟨B, j, ran, sameValues_of_eval represents represented roots same⟩
  · obtain ⟨before, after, t, rfl⟩ := exists_top represents listed
    obtain ⟨B, j, s, n, ran, represented, roots, same, -⟩ :=
      passesUntilStable_keeps congruent_sameValue step follows members represents rfl verbosity o.maxPasses 0 {}
    exact ⟨B, j, ran, sameValues_of_eval represents represented roots same⟩

theorem run_keeps_values_negatedPair :
    ∃ B j, ({ rules := [Rule.deMorgan, Rule.literalOperand, Rule.deMorgan], settle := false } : Optimizer).runPass
      .debug Arena.negatedPair ⟨4⟩ = .ok (B, j) ∧ SameValues Arena.negatedPair B :=
  (run_keeps_values Arena.negatedPair_wellFormed (by simp [Rule.builtin]) .debug).1 ⟨4⟩ rfl

end Propositional.Optimizer
