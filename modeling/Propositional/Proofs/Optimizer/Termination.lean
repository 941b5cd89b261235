import Propositional.Proofs.Checked
import Propositional.Proofs.Optimizer.Run

/-!
# Optimizers end

Every replacement that a rule of the library makes takes weight from the tree that it is in and leaves
the other trees alone. So a pass ends by itself, not because it runs out of steps: more steps give the
same. And passes over one root cannot go on replacing for longer than the tree weighs.
-/

namespace Propositional

def Arena.weightShape : Shape Nat → Nat
  | .root weight => weight
  | .binary _ left right => left + 2 * right + 1
  | .not weight => 2 * weight
  | .parens weight => weight + 1
  | .id _ | .literal _ => 1

/-- The weight of the subtree of a node: what is below a negation or on the right of a connective
counts twice. -/
def Arena.weight (A : Arena) : Handle → Checked Nat := A.fold fun _ => weightShape

theorem Formula.fold_weightShape (f : Formula) : f.fold Arena.weightShape = f.weight := by
  induction f <;> simp_all [fold, weight, Arena.weightShape]

theorem Arena.Represents.weight_root {A : Arena} {trees : List Tree} {x : Tree} (represents : A.Represents trees)
    (tree : x ∈ trees) : A.weight x.root = .ok x.body.formula.weight := by
  rw [Arena.weight, represents.fold_root_formula tree, Formula.fold_weightShape]
  rfl

namespace Optimizer

open Checked (bind_ok)

variable {o : Optimizer} {verbosity : Verbosity} {A B : Arena} {C : Place} {t s : Term} {j k : Journal}
  {α β : Type}

/-! ### More steps give the same -/

/-- Where one operation answers, the other gives the same answer. -/
def Extends (f g : α → Checked β) : Prop := ∀ a r, f a = .ok r → g a = .ok r

theorem offerWith_extends {f g : Handle → Arena × Journal → Checked (Arena × Journal)}
    (deeper : ∀ h, Extends (f h) (g h)) {h : Handle} {r : Arena × Journal}
    (answered : o.offerWith verbosity f h A j = .ok r) : o.offerWith verbosity g h A j = .ok r := by
  have fresh : ∀ h state r, offerFresh f h state = .ok r → offerFresh g h state = .ok r := by
    intro h state r answered
    obtain ⟨live, read, answered⟩ := bind_ok answered
    rw [offerFresh, read]
    cases live with
    | true => exact deeper h state r answered
    | false => exact answered
  obtain ⟨parent, readParent, answered⟩ := bind_ok answered
  rw [offerWith, readParent]
  cases parent with
  | none => exact answered
  | some parent =>
    obtain ⟨variant, readVariant, answered⟩ := bind_ok answered
    obtain ⟨⟨choice, j⟩, chosen, answered⟩ := bind_ok answered
    simp only [bind, Except.bind, readVariant, chosen]
    cases choice with
    | none => exact answered
    | some choice =>
      obtain ⟨done, replaced, answered⟩ := bind_ok answered
      simp only [replaced]
      cases settling : o.settle with
      | false => simpa [settling] using answered
      | true =>
        rw [settling, if_pos rfl] at answered
        obtain ⟨settled, folded, answered⟩ := bind_ok answered
        simp only [if_true, Checked.foldlM_extends fresh folded]
        split
        · rename_i top
          rwa [if_pos top] at answered
        · rename_i top
          rw [if_neg top] at answered
          exact deeper _ _ _ answered

theorem offerTo_extends (o : Optimizer) (verbosity : Verbosity) (steps : Nat) (h : Handle) :
    Extends (o.offerTo verbosity steps h) (o.offerTo verbosity (steps + 1) h) := by
  induction steps generalizing h with
  | zero =>
    intro state r answered
    simp [offerTo] at answered
  | succ steps ih =>
    rintro ⟨A, j⟩ r answered
    rw [offerTo_succ] at answered ⊢
    exact offerWith_extends ih answered

theorem visit_extends (o : Optimizer) (verbosity : Verbosity) (steps : Nat) (w w' : Arena.Walk Journal)
    (h : Handle) (visited : w.visit (o.visit verbosity steps) h = .ok w') :
    w.visit (o.visit verbosity (steps + 1)) h = .ok w' := by
  obtain ⟨⟨replaced, B, k⟩, attempted, ended⟩ := bind_ok visited
  obtain ⟨state, offered, counted⟩ := bind_ok attempted
  rw [Arena.Walk.visit, visit, offerTo_extends o verbosity steps h _ state offered]
  simp only [bind, Except.bind]
  rw [show (pure _ : Checked (Bool × Arena × Journal)) = .ok (replaced, B, k) from counted]
  exact ended

theorem fromSlot_extends (o : Optimizer) (verbosity : Verbosity) (steps : Nat) {fuel : Nat} {h : Handle}
    {slot : Nat} {w w' : Arena.Walk Journal}
    (walked : Arena.Walk.fromSlot (o.visit verbosity steps) fuel h slot w = .ok w') :
    Arena.Walk.fromSlot (o.visit verbosity (steps + 1)) (fuel + 1) h slot w = .ok w' := by
  induction fuel generalizing h slot w w' with
  | zero => simp [Arena.Walk.fromSlot] at walked
  | succ fuel ih =>
    rw [Arena.Walk.fromSlot] at walked ⊢
    obtain ⟨child, read, walked⟩ := bind_ok walked
    rw [read]
    cases child with
    | none => exact visit_extends o verbosity steps w w' h walked
    | some child =>
      obtain ⟨w₁, below, walked⟩ := bind_ok walked
      simp only [bind, Except.bind, ih below]
      exact ih walked

/-- A pass that ends in a number of steps does the same in more. -/
theorem runPassTo_mono {steps more : Nat} {start : Handle} {r : Arena × Journal}
    (answered : o.runPassTo verbosity steps A start = .ok r) (le : steps ≤ more) :
    o.runPassTo verbosity more A start = .ok r := by
  induction le with
  | refl => exact answered
  | step le ih =>
    obtain ⟨w, walked, ended⟩ := bind_ok ih
    rw [runPassTo, Arena.walkTo, fromSlot_extends o verbosity _ walked]
    exact ended

/-! ### Weights -/

/-- One tree has become lighter, and the others weigh what they did. -/
def Lighter (A B : Arena) : Prop :=
  ∃ root ∈ A.roots, (∃ before after, A.weight root = .ok before ∧ B.weight root = .ok after ∧ after < before) ∧
    ∀ other ∈ A.roots, other ≠ root → B.weight other = A.weight other

theorem lighter_of_weight (before : A.Represents (C.fill t)) (after : B.Represents (C.fill s))
    (lighter : s.formula.weight < t.formula.weight) : Lighter A B := by
  have plugged : (C.plug s).formula.weight + 1 ≤ (C.plug t).formula.weight :=
    congruent_weight.plug (n := 1) C lighter
  rw [C.fill_eq] at before after
  have weighs := before.weight_root (x := ⟨C.root, C.plug t⟩) (by simp)
  have weighs' := after.weight_root (x := ⟨C.root, C.plug s⟩) (by simp)
  refine ⟨C.root, (before.mem_roots _).mpr ⟨⟨C.root, C.plug t⟩, by simp, rfl⟩,
    ⟨_, _, weighs, weighs', plugged⟩, fun other listed different => ?_⟩
  obtain ⟨x, tree, rfl⟩ := (before.mem_roots other).mp listed
  rw [List.mem_append, List.mem_cons] at tree
  rcases tree with tree | rfl | tree
  · rw [before.weight_root (by simp [tree]), after.weight_root (by simp [tree])]
  · exact absurd rfl different
  · rw [before.weight_root (by simp [tree]), after.weight_root (by simp [tree])]

/-- A rule of the library that was chosen for a node replaces it, and takes weight from one tree. -/
theorem replaceWith_lighter (wellFormed : A.WellFormed) (library : ∀ rule ∈ o.rules, rule ∈ Rule.builtin)
    {h parent : Handle} {variant : Variant} {rule : Rule} {candidate : Candidate}
    (held : A.parent h = .ok (some parent)) (sort : A.variant h = .ok variant)
    (chosen : choose verbosity A h j (o.rulesFor variant) = .ok (some (rule, candidate), k)) :
    ∃ done, replaceWith verbosity A parent h rule candidate k = .ok done ∧ done.arena.WellFormed ∧
      Lighter A done.arena := by
  obtain ⟨C, t, represents, rfl, rfl⟩ := wellFormed.exists_place held
  obtain ⟨laws, follows, members⟩ := exists_laws library
  rw [Arena.variant_of_cell? represents.holds.top, t.variant_shape] at sort
  obtain rfl := Except.ok.inj sort
  obtain ⟨choice, k', chosen', -, which⟩ := choose_follows follows represents verbosity j
  obtain ⟨rfl, rfl⟩ := Prod.mk.inj (Except.ok.inj (chosen.symm.trans chosen'))
  rcases which with ⟨nothing, -⟩ | ⟨rule', d, same, drafted, within, changes⟩
  · simp at nothing
  · obtain ⟨rfl, rfl⟩ := Prod.mk.inj (Option.some.inj same)
    obtain ⟨done, s, replaced, builds, represented, -⟩ :=
      replaceWith_ok represents within changes verbosity rule k
    obtain ⟨law, member, proposed⟩ := Formula.exists_law_of_firstDraft drafted
    have lighter := Law.weight_of_mem_builtin (members law member) proposed
    rw [← builds.formula] at lighter
    exact ⟨done, replaced, represented.wellFormed, lighter_of_weight represents represented lighter⟩

/-! ### Passes one after the other -/

/-- The arena after a number of passes from a node. -/
def afterPasses (o : Optimizer) (verbosity : Verbosity) (start : Handle) : Nat → Arena → Checked Arena
  | 0, A => return A
  | passes + 1, A => do
    let (A, _) ← o.runPass verbosity A start
    o.afterPasses verbosity start passes A

/-- Passes over a root come to one that replaces nothing, at the latest when there is no weight left. -/
theorem exists_idle_pass {laws : List Law} (follows : List.Forall₂ Rule.Follows o.rules laws)
    (library : ∀ law ∈ laws, law ∈ Law.builtin) (represents : A.Represents (C.fill t))
    (top : C.grandparent = none) (verbosity : Verbosity) :
    ∃ passes B j, passes ≤ t.formula.weight ∧ o.afterPasses verbosity C.parent passes A = .ok B ∧
      o.runPass verbosity B C.parent = .ok (B, j) ∧ j.replacements = 0 := by
  induction weight : t.formula.weight using Nat.strongRecOn generalizing A t with
  | _ weight ih =>
    obtain ⟨B, j, s, ran, represented, -, lighter, kept⟩ :=
      runPass_keeps congruent_weight (lightening_of_builtin library) follows library represents
        (Or.inr ⟨top, rfl⟩) verbosity
    by_cases idle : j.replacements = 0
    · obtain rfl := kept idle
      exact ⟨0, B, j, Nat.zero_le _, rfl, ran, idle⟩
    · obtain ⟨passes, D, k, few, reached, last, none⟩ := ih s.formula.weight (by omega) represented rfl
      refine ⟨passes + 1, D, k, by omega, ?_, last, none⟩
      rw [afterPasses, ran]
      exact reached

/-- With rules of the library, in any order and any number: a pass from a live node ends, and with more
steps it ends alike; a rule that is chosen replaces its node, keeps the arena well formed and makes one
tree lighter; and passes over a root come to one that replaces nothing. -/
theorem run_ends (wellFormed : A.WellFormed) (library : ∀ rule ∈ o.rules, rule ∈ Rule.builtin)
    (verbosity : Verbosity) :
    (∀ start, A.isLive start = .ok true →
      ∃ r, ∀ steps, A.patience ≤ steps → o.runPassTo verbosity steps A start = .ok r) ∧
    (∀ h parent variant rule candidate j k, A.parent h = .ok (some parent) → A.variant h = .ok variant →
      choose verbosity A h j (o.rulesFor variant) = .ok (some (rule, candidate), k) →
      ∃ done, replaceWith verbosity A parent h rule candidate k = .ok done ∧ done.arena.WellFormed ∧
        Lighter A done.arena) ∧
    ∀ root ∈ A.roots, ∃ weight passes B j, A.weight root = .ok weight ∧ passes ≤ weight ∧
      o.afterPasses verbosity root passes A = .ok B ∧
      o.runPass verbosity B root = .ok (B, j) ∧ j.replacements = 0 := by
  obtain ⟨trees, represents⟩ := wellFormed.exists_represents
  obtain ⟨laws, follows, members⟩ := exists_laws library
  refine ⟨fun start live => ?_, ?_, fun root listed => ?_⟩
  · obtain ⟨C, t, rfl, covers⟩ := exists_covers represents live
    obtain ⟨-, -, -, B, j, -, ran, -⟩ := runPass_reaches follows members represents covers verbosity
    exact ⟨(B, j), fun steps enough => runPassTo_mono ran enough⟩
  · intro h parent variant rule candidate j k held sort chosen
    exact replaceWith_lighter wellFormed library held sort chosen
  · obtain ⟨before, after, t, rfl⟩ := exists_top represents listed
    have weighs := represents.weight_root (x := ⟨root, t⟩) (by simp [Place.fill])
    obtain ⟨passes, B, j, few, rest⟩ := exists_idle_pass follows members represents rfl verbosity
    exact ⟨_, passes, B, j, weighs, few, rest⟩

theorem run_ends_negatedPair :
    (∃ r, ∀ steps, Arena.negatedPair.patience ≤ steps →
      ({} : Optimizer).runPassTo .silent steps Arena.negatedPair ⟨5⟩ = .ok r) ∧
    ∃ done, replaceWith .silent Arena.negatedPair ⟨4⟩ ⟨3⟩ Rule.literalOperand (.existing ⟨1⟩) {} = .ok done ∧
      done.arena.WellFormed ∧ Lighter Arena.negatedPair done.arena := by
  obtain ⟨ends, lighter, -⟩ := run_ends (o := {}) Arena.negatedPair_wellFormed (fun _ member => member) .silent
  refine ⟨ends ⟨5⟩ rfl, lighter ⟨3⟩ ⟨4⟩ .binary _ _ {} {} rfl rfl ?_⟩
  rfl

end Optimizer

end Propositional
