import Propositional.Proofs.Formula.Settling
import Propositional.Proofs.Optimizer.Run

/-!
# Optimizers compute normal forms

With all rules of the library in their order, and replacements that are settled, one pass over a root
leaves the normal form of the formula below it. A normal form is left alone, so a second pass changes
nothing, and the search for a stable tree ends with the first pass.
-/

namespace Propositional

namespace Optimizer

variable {o : Optimizer} {A : Arena} {before after : List Tree} {root : Handle} {t : Term}

theorem runPass_top (rules : o.rules = Rule.builtin) (settling : o.settle = true)
    (represents : A.Represents ((Place.top before root after).fill t)) (verbosity : Verbosity) :
    ∃ B j s, o.runPass verbosity A root = .ok (B, j) ∧ B.Represents ((Place.top before root after).fill s) ∧
      s.formula = t.formula.nf ∧ s.formula.Normal := by
  have follows : List.Forall₂ Rule.Follows o.rules Law.builtin := rules ▸ Rule.builtin_follow
  obtain ⟨B, j, s, ran, represented, passed, -⟩ :=
    runPass_root follows (fun _ member => member) represents verbosity
  rw [settling] at passed
  obtain ⟨result, normal⟩ := Formula.pass_eq_nf passed
  exact ⟨B, j, s, ran, represented, result, result ▸ normal⟩

theorem runPass_normal (rules : o.rules = Rule.builtin) (settling : o.settle = true)
    (represents : A.Represents ((Place.top before root after).fill t)) (normal : t.formula.Normal)
    (verbosity : Verbosity) : ∃ j, o.runPass verbosity A root = .ok (A, j) ∧ j.replacements = 0 := by
  have follows : List.Forall₂ Rule.Follows o.rules Law.builtin := rules ▸ Rule.builtin_follow
  obtain ⟨g, n, passed, B, j, s, ran, -, -, -, count, kept⟩ :=
    runPass_reaches follows (fun _ member => member) represents (Or.inr ⟨rfl, rfl⟩) verbosity
  rw [settling] at passed
  obtain ⟨-, none⟩ := (normal.settled none).pass passed
  obtain rfl := kept none
  exact ⟨j, ran, by simpa [none] using count⟩

/-- With all rules and settled replacements, a pass over a root puts the normal form in the place of the
formula below it. -/
theorem runPass_computes_nf (wellFormed : A.WellFormed) (rules : o.rules = Rule.builtin)
    (settling : o.settle = true) (listed : root ∈ A.roots) (verbosity : Verbosity) :
    ∃ f B j, A.formula root = .ok f ∧ o.runPass verbosity A root = .ok (B, j) ∧ B.formula root = .ok f.nf := by
  obtain ⟨trees, represents⟩ := wellFormed.exists_represents
  obtain ⟨before, after, t, rfl⟩ := exists_top represents listed
  obtain ⟨B, j, s, ran, represented, result, -⟩ := runPass_top rules settling represents verbosity
  have reads := represents.formula_root (x := ⟨root, t⟩) (by simp [Place.fill])
  have reads' := represented.formula_root (x := ⟨root, s⟩) (by simp [Place.fill])
  exact ⟨t.formula, B, j, reads, ran, result ▸ reads'⟩

theorem runPass_computes_nf_negatedPair : ∃ B j, ({} : Optimizer).runPass .silent Arena.negatedPair ⟨5⟩ = .ok (B, j) ∧
    B.formula ⟨5⟩ = .ok (.not (.id "x")) := by
  obtain ⟨f, B, j, read, ran, result⟩ :=
    runPass_computes_nf (o := {}) Arena.negatedPair_wellFormed rfl rfl (List.mem_singleton.mpr rfl) .silent
  have written : Arena.negatedPair.formula ⟨5⟩ = .ok (.not (.binary .and (.id "x") (.literal true))) := rfl
  obtain rfl := Except.ok.inj (written.symm.trans read)
  exact ⟨B, j, ran, result⟩

/-- A second pass over a root replaces nothing and leaves the arena as it is, and so one pass is all
that a search for a stable tree makes. -/
theorem runPass_idempotent (wellFormed : A.WellFormed) (rules : o.rules = Rule.builtin)
    (settling : o.settle = true) (listed : root ∈ A.roots) (verbosity : Verbosity) :
    ∃ B j, o.runPass verbosity A root = .ok (B, j) ∧
      (∃ k, o.runPass verbosity B root = .ok (B, k) ∧ k.replacements = 0) ∧
      (1 ≤ o.maxPasses → ∃ k, o.runUntilStable verbosity A root = .ok (B, k) ∧
        k.replacements = j.replacements) := by
  obtain ⟨trees, represents⟩ := wellFormed.exists_represents
  obtain ⟨before, after, t, rfl⟩ := exists_top represents listed
  obtain ⟨B, j, s, ran, represented, -, normal⟩ := runPass_top rules settling represents verbosity
  obtain ⟨k, again, none⟩ := runPass_normal rules settling represented normal verbosity
  refine ⟨B, j, ran, ⟨k, again, none⟩, fun some_passes => ?_⟩
  obtain ⟨m, passes⟩ : ∃ m, o.maxPasses = m + 1 := ⟨o.maxPasses - 1, by omega⟩
  rw [runUntilStable, passes, passesUntilStable, ran]
  simp only [bind, Except.bind]
  split
  · exact ⟨_, rfl, by simp [Journal.append]⟩
  · -- A second pass, if one is left, finds nothing to do.
    cases m with
    | zero => exact ⟨_, rfl, by simp [Journal.append]⟩
    | succ m =>
      rw [passesUntilStable, again]
      simp only [bind, Except.bind, none, if_true]
      exact ⟨_, rfl, by simp [Journal.append, none]⟩

theorem runPass_idempotent_negatedPair : ∃ B j k, ({} : Optimizer).runPass .silent Arena.negatedPair ⟨5⟩ = .ok (B, j) ∧
    ({} : Optimizer).runPass .silent B ⟨5⟩ = .ok (B, k) ∧ k.replacements = 0 := by
  obtain ⟨B, j, ran, ⟨k, again, none⟩, -⟩ :=
    runPass_idempotent (o := {}) Arena.negatedPair_wellFormed rfl rfl (List.mem_singleton.mpr rfl) .silent
  exact ⟨B, j, k, ran, again, none⟩

end Optimizer

end Propositional
