import Mathlib.Data.List.Forall2
import Propositional.Fault

/-!
# Checked computations

A computation that answered did so step by step, and each of its steps answered. What holds of the single
steps of a loop holds of the loop.
-/

namespace Propositional.Checked

variable {α β : Type}

theorem ok_bind (a : α) (f : α → Checked β) : ((.ok a : Checked α) >>= f) = f a := rfl

theorem bind_ok {x : Checked α} {f : α → Checked β} {r : β} (answered : x >>= f = .ok r) :
    ∃ a, x = .ok a ∧ f a = .ok r := by
  cases x with
  | error fault => simp [bind, Except.bind] at answered
  | ok a => exact ⟨a, rfl, answered⟩

theorem bind_ok_of_either {P : Prop} [Decidable P] {x y : Checked α} {f : α → Checked β} {r : β}
    (answered : (if P then x >>= f else y >>= f) = .ok r) : ∃ a, f a = .ok r := by
  split at answered
  · obtain ⟨a, -, rest⟩ := bind_ok answered
    exact ⟨a, rest⟩
  · obtain ⟨a, -, rest⟩ := bind_ok answered
    exact ⟨a, rest⟩

theorem ofTable_ok {result : Except Table.Fault α} {a : α} (answered : ofTable result = .ok a) : result = .ok a := by
  cases result with
  | error fault => simp [ofTable, Except.mapError] at answered
  | ok b => simpa [ofTable, Except.mapError] using answered

/-! ### Folds -/

theorem foldlM_extends {f g : β → α → Checked β} (each : ∀ a b r, f b a = .ok r → g b a = .ok r)
    {items : List α} {b r : β} (answered : items.foldlM f b = .ok r) : items.foldlM g b = .ok r := by
  induction items generalizing b with
  | nil => exact answered
  | cons a later ih =>
    rw [List.foldlM_cons] at answered ⊢
    obtain ⟨c, first, rest⟩ := bind_ok answered
    rw [each a b c first]
    exact ih rest

theorem foldlM_grows {f : β → Nat} {step : β → α → Checked β} {items : List α} {b r : β}
    (each : ∀ b a r, step b a = .ok r → f b ≤ f r) (folded : items.foldlM step b = .ok r) : f b ≤ f r := by
  induction items generalizing b with
  | nil =>
    obtain rfl : b = r := Except.ok.inj folded
    exact Nat.le_refl _
  | cons a later ih =>
    rw [List.foldlM_cons] at folded
    obtain ⟨c, first, rest⟩ := bind_ok folded
    exact Nat.le_trans (each b a c first) (ih rest)

/-! ### Maps -/

theorem mapM_ok {f : α → Checked β} {g : α → β} {items : List α} (each : ∀ a ∈ items, f a = .ok (g a)) :
    items.mapM f = .ok (items.map g) := by
  induction items with
  | nil => rfl
  | cons a later ih =>
    rw [List.mapM_cons, each a List.mem_cons_self, ih fun b member => each b (List.mem_cons_of_mem _ member)]
    rfl

theorem exists_mapM {f : α → Checked β} {P : α → β → Prop} {items : List α}
    (each : ∀ a ∈ items, ∃ b, f a = .ok b ∧ P a b) : ∃ bs, items.mapM f = .ok bs ∧ List.Forall₂ P items bs := by
  induction items with
  | nil => exact ⟨[], rfl, .nil⟩
  | cons a later ih =>
    obtain ⟨b, first, holds⟩ := each a List.mem_cons_self
    obtain ⟨bs, others, all⟩ := ih fun a member => each a (List.mem_cons_of_mem _ member)
    refine ⟨b :: bs, ?_, .cons holds all⟩
    rw [List.mapM_cons, first, others]
    rfl

theorem exists_mem_of_mapM {f : α → Checked β} {items : List α} {results : List β} {a : α}
    (mapped : items.mapM f = .ok results) (member : a ∈ items) : ∃ b ∈ results, f a = .ok b := by
  induction items generalizing results with
  | nil => cases member
  | cons first others ih =>
    rw [List.mapM_cons] at mapped
    obtain ⟨b, read, mapped⟩ := bind_ok mapped
    obtain ⟨bs, later, same⟩ := bind_ok mapped
    obtain rfl := Except.ok.inj same
    rcases List.mem_cons.mp member with rfl | member
    · exact ⟨b, List.mem_cons_self, read⟩
    · obtain ⟨b', inside, read'⟩ := ih later member
      exact ⟨b', List.mem_cons_of_mem _ inside, read'⟩

end Propositional.Checked
