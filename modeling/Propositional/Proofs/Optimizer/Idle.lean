import Propositional.Proofs.Formula.Simplified
import Propositional.Proofs.Optimizer.Termination

/-!
# Passes that replace nothing

A pass with all rules of the library in their order replaces nothing if and only if the formula below
the root is simplified, whether replacements are settled or not. So a search for a stable tree ends
with a simplified formula, unless it is given up while every pass still replaces something.
-/

namespace Propositional

namespace Optimizer

variable {o : Optimizer} {A : Arena} {before after : List Tree} {root : Handle} {t : Term}

theorem runPass_idle_top (rules : o.rules = Rule.builtin)
    (represents : A.Represents ((Place.top before root after).fill t)) (verbosity : Verbosity) :
    ∃ B j s, o.runPass verbosity A root = .ok (B, j) ∧ B.Represents ((Place.top before root after).fill s) ∧
      (j.replacements = 0 ↔ t.formula.Simplified none) ∧ (j.replacements = 0 → B = A) := by
  have follows : List.Forall₂ Rule.Follows o.rules Law.builtin := rules ▸ Rule.builtin_follow
  obtain ⟨B, j, s, ran, represented, -, idle_iff, kept⟩ :=
    runPass_root follows (fun _ member => member) represents verbosity
  exact ⟨B, j, s, ran, represented, idle_iff.trans Formula.inert_builtin_iff, kept⟩

/-- Each of the first passes over a root, as many as are given, replaces something. -/
def Busy (o : Optimizer) (verbosity : Verbosity) (root : Handle) (A : Arena) (passes : Nat) : Prop :=
  ∀ n < passes, ∃ D E j, o.afterPasses verbosity root n A = .ok D ∧ o.runPass verbosity D root = .ok (E, j) ∧
    0 < j.replacements

theorem busy_succ {B : Arena} {j : Journal} {verbosity : Verbosity} {passes : Nat}
    (ran : o.runPass verbosity A root = .ok (B, j)) (replaced : 0 < j.replacements)
    (later : Busy o verbosity root B passes) : Busy o verbosity root A (passes + 1) := by
  intro n few
  cases n with
  | zero => exact ⟨A, B, j, rfl, ran, replaced⟩
  | succ n =>
    rw [afterPasses, ran]
    exact later n (by omega)

theorem passesUntilStable_simplified (rules : o.rules = Rule.builtin)
    (represents : A.Represents ((Place.top before root after).fill t)) (verbosity : Verbosity)
    (left done : Nat) (j : Journal) :
    ∃ B k s, o.passesUntilStable verbosity root left done (A, j) = .ok (B, k) ∧
      B.Represents ((Place.top before root after).fill s) ∧
      (s.formula.Simplified none ∨ Busy o verbosity root A left) := by
  induction left generalizing A t done j with
  | zero => exact ⟨A, _, t, rfl, represents, Or.inr (fun n few => absurd few (Nat.not_lt_zero n))⟩
  | succ left ih =>
    obtain ⟨B, pass, s, ran, represented, idle_iff, kept⟩ := runPass_idle_top rules represents verbosity
    rw [passesUntilStable, ran]
    simp only [bind, Except.bind]
    split
    · rename_i idle
      obtain rfl := kept idle
      exact ⟨B, _, t, rfl, represents, Or.inl (idle_iff.mp idle)⟩
    · rename_i replaced
      obtain ⟨E, k, u, rest, represented', ended⟩ := ih represented (done + 1) (j.append pass)
      exact ⟨E, k, u, rest, represented', ended.imp_right (busy_succ ran (Nat.pos_of_ne_zero replaced))⟩

/-- With all rules in their order, a pass over a root replaces nothing if and only if what is below the
root is simplified, and then it leaves the arena as it is. A search for a stable tree leaves a simplified
formula, or every pass that it may make replaces something. -/
theorem runPass_idle_iff_simplified (wellFormed : A.WellFormed) (rules : o.rules = Rule.builtin)
    (listed : root ∈ A.roots) (verbosity : Verbosity) :
    (∃ f B j, A.formula root = .ok f ∧ o.runPass verbosity A root = .ok (B, j) ∧
      (j.replacements = 0 ↔ f.Simplified none) ∧ (j.replacements = 0 → B = A)) ∧
    ∃ B k g, o.runUntilStable verbosity A root = .ok (B, k) ∧ B.formula root = .ok g ∧
      (g.Simplified none ∨ Busy o verbosity root A o.maxPasses) := by
  obtain ⟨trees, represents⟩ := wellFormed.exists_represents
  obtain ⟨before, after, t, rfl⟩ := exists_top represents listed
  have reads := represents.formula_root (x := ⟨root, t⟩) (by simp [Place.fill])
  obtain ⟨B, j, -, ran, -, idle_iff, kept⟩ := runPass_idle_top rules represents verbosity
  obtain ⟨E, k, s, searched, represented, ended⟩ :=
    passesUntilStable_simplified rules represents verbosity o.maxPasses 0 {}
  have reads' := represented.formula_root (x := ⟨root, s⟩) (by simp [Place.fill])
  exact ⟨⟨t.formula, B, j, reads, ran, idle_iff, kept⟩, E, k, s.formula, searched, reads', ended⟩

theorem runPass_idle_iff_simplified_negatedPair :
    ∃ B j, ({ settle := false } : Optimizer).runPass .silent Arena.negatedPair ⟨5⟩ = .ok (B, j) ∧
      j.replacements ≠ 0 := by
  obtain ⟨⟨f, B, j, read, ran, idle_iff, -⟩, -⟩ := runPass_idle_iff_simplified (o := { settle := false })
    Arena.negatedPair_wellFormed rfl (List.mem_singleton.mpr rfl) .silent
  obtain rfl := Except.ok.inj
    (show Except.ok (Formula.not (.binary .and (.id "x") (.literal true))) = _ from read)
  refine ⟨B, j, ran, fun idle => ?_⟩
  obtain ⟨name, same⟩ := (idle_iff.mp idle).negates_names none _ (Formula.self_mem_subformulas none _)
  simp at same

end Optimizer

end Propositional
