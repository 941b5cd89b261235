import Propositional.Proofs.Formula.Pass

/-!
# Formulas that laws leave alone

A formula is inert if no law has a draft for it or for a part of it, each part below the connective
that stands above it there. A pass counts nothing if and only if the formula is inert, and then the
formula stays as it is, whether drafts are settled or not.
-/

namespace Propositional

namespace Law

variable {above : Option Connective} {op : Connective} {l r : Formula}

theorem literalOperand_eq_none_iff :
    literalOperand above (.binary op l r) = none ↔ l.literal? = none ∧ r.literal? = none := by
  rw [literalOperand]
  cases l.literal? <;> cases r.literal? <;> simp

theorem chainReduction_eq_none_iff : chainReduction above (.binary op l r) = none ↔
    above = some op ∨ (reduced op ((Formula.binary op l r).operands op)).formula = .binary op l r := by
  rw [chainReduction]
  exact ite_eq_left_iff.trans (by simp [or_iff_not_imp_left])

end Law

namespace Formula

variable {laws : List Law} {settling : Bool} {steps n : Nat} {above : Option Connective} {op : Connective}
  {f g : Formula}

theorem firstDraft_eq_none_iff : firstDraft laws above f = none ↔ ∀ law ∈ laws, law above f = none :=
  List.findSome?_eq_none_iff

/-- No law has a draft for any node of the formula. -/
def Inert (laws : List Law) : Option Connective → Formula → Prop
  | above, binary op left right =>
    left.Inert laws (some op) ∧ right.Inert laws (some op) ∧ firstDraft laws above (binary op left right) = none
  | above, not operand => operand.Inert laws none ∧ firstDraft laws above (not operand) = none
  | above, parens inner => inner.Inert laws above ∧ firstDraft laws above (parens inner) = none
  | above, f => firstDraft laws above f = none

theorem Inert.firstDraft_eq_none (inert : f.Inert laws above) : firstDraft laws above f = none := by
  cases f with
  | binary op left right => exact inert.2.2
  | not operand | parens inner => exact inert.2
  | id name | literal value => exact inert

/-! ### Passes that count nothing -/

theorem congruent_idle : Congruent fun f n g => n = 0 → g = f where
  refl f _ := rfl
  trans first second idle := by
    obtain ⟨before, after⟩ := Nat.add_eq_zero_iff.mp idle
    rw [second after, first before]
  binary left right idle := by
    obtain ⟨before, after⟩ := Nat.add_eq_zero_iff.mp idle
    rw [left before, right after]
  not below idle := by rw [below idle]
  parens below idle := by rw [below idle]

theorem eq_of_pass_idle (passed : f.pass laws settling steps above = some (g, 0)) : g = f :=
  congruent_idle.pass (fun _ _ _ _ _ _ idle => absurd idle Nat.one_ne_zero) passed rfl

theorem offer_idle_iff (offered : f.offer laws settling steps above = some (g, n)) :
    n = 0 ↔ firstDraft laws above f = none := by
  cases steps with
  | zero => simp [offer] at offered
  | succ steps =>
    rcases offer_eq_some offered with ⟨nothing, -, count⟩ | ⟨d, drafted, ended⟩
    · exact iff_of_true count nothing
    · have counted : n ≠ 0 := by
        rcases ended with ⟨-, -, rfl⟩ | ⟨-, h, i, k, -, -, rfl⟩ <;> omega
      exact iff_of_false counted (by simp [drafted])

/-- A pass counts nothing if and only if the formula is inert. -/
theorem pass_idle_iff (passed : f.pass laws settling steps above = some (g, n)) :
    n = 0 ↔ f.Inert laws above := by
  induction f generalizing above g n with
  | binary op left right ihl ihr =>
    obtain ⟨l, i, r, j, k, first, second, top, rfl⟩ := Draft.settle_binary_eq_some passed
    have kept : i = 0 → j = 0 → (k = 0 ↔ firstDraft laws above (binary op left right) = none) := by
      rintro rfl rfl
      obtain rfl := eq_of_pass_idle first
      obtain rfl := eq_of_pass_idle second
      exact offer_idle_iff top
    rw [Inert, ← ihl first, ← ihr second, Nat.add_eq_zero_iff, Nat.add_eq_zero_iff, and_assoc]
    exact and_congr_right fun idleLeft => and_congr_right fun idleRight => kept idleLeft idleRight
  | not operand ih =>
    obtain ⟨f, i, k, below, top, rfl⟩ := Draft.settle_not_eq_some passed
    have kept : i = 0 → (k = 0 ↔ firstDraft laws above (not operand) = none) := by
      rintro rfl
      obtain rfl := eq_of_pass_idle below
      exact offer_idle_iff top
    rw [Inert, ← ih below, Nat.add_eq_zero_iff]
    exact and_congr_right kept
  | parens inner ih =>
    obtain ⟨f, i, k, below, top, rfl⟩ := Draft.settle_parens_eq_some passed
    have kept : i = 0 → (k = 0 ↔ firstDraft laws above (parens inner) = none) := by
      rintro rfl
      obtain rfl := eq_of_pass_idle below
      exact offer_idle_iff top
    rw [Inert, ← ih below, Nat.add_eq_zero_iff]
    exact and_congr_right kept
  | id name | literal value => exact offer_idle_iff passed

theorem Inert.eq_of_pass (inert : f.Inert laws above) (passed : f.pass laws settling steps above = some (g, n)) :
    g = f ∧ n = 0 := by
  obtain rfl := (pass_idle_iff passed).mpr inert
  exact ⟨eq_of_pass_idle passed, rfl⟩

end Formula

end Propositional
