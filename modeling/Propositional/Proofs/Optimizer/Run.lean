import Propositional.Proofs.Arena.WellFormed
import Propositional.Proofs.Formula.Inert
import Propositional.Proofs.Optimizer.Simulation

/-!
# Runs with rules of the library

Rules of the library follow laws that make formulas lighter. So a pass from any node of a forest ends,
whatever of these rules there are in whatever order, and leaves a forest that differs in one term. What
each law keeps is kept by the pass, and by passes until one replaces nothing.
-/

namespace Propositional

/-- The weight of a formula needs no more binary digits than there are nodes. -/
theorem Term.weight_lt_two_pow (t : Term) : t.formula.weight < 2 ^ t.size := by
  induction t with
  | binary h op left right ihl ihr =>
    have first : left.formula.weight + 1 ≤ 2 ^ left.size := ihl
    have second : right.formula.weight + 1 ≤ 2 ^ right.size := ihr
    have product := Nat.mul_le_mul first second
    rw [size_binary, Nat.pow_succ, Nat.pow_add]
    simp only [formula, Formula.weight]
    rw [Nat.add_mul, Nat.mul_add] at product
    omega
  | not h child ih | parens h child ih =>
    first | rw [size_not, Nat.pow_succ] | rw [size_parens, Nat.pow_succ]
    simp only [formula, Formula.weight]
    omega
  | id | literal => simp [formula, Formula.weight, size, handles]

theorem Congruent.plug {R : Formula → Nat → Formula → Prop} (congruent : Congruent R) {t s : Term} {n : Nat}
    (C : Place) (related : R t.formula n s.formula) : R (C.plug t).formula n (C.plug s).formula := by
  induction C generalizing t s with
  | top => exact related
  | left up h op sibling ih =>
    have both : R (.binary op t.formula sibling.formula) n (.binary op s.formula sibling.formula) :=
      congruent.binary related (congruent.refl sibling.formula)
    exact ih both
  | right up h op sibling ih =>
    have both : R (.binary op sibling.formula t.formula) (0 + n) (.binary op sibling.formula s.formula) :=
      congruent.binary (congruent.refl sibling.formula) related
    rw [Nat.zero_add] at both
    exact ih both
  | not up h ih => exact ih (congruent.not related)
  | parens up h ih => exact ih (congruent.parens related)

namespace Optimizer

variable {o : Optimizer} {verbosity : Verbosity} {rules : List Rule} {laws : List Law} {A B : Arena}
  {C : Place} {t s : Term} {start : Handle} {R : Formula → Nat → Formula → Prop}

/-- A rule of the library and the law that it follows. -/
def Paired (rule : Rule) (law : Law) : Prop := (rule, law) ∈ Rule.builtin.zip Law.builtin

theorem exists_paired (library : ∀ rule ∈ rules, rule ∈ Rule.builtin) : ∃ laws, List.Forall₂ Paired rules laws := by
  induction rules with
  | nil => exact ⟨[], .nil⟩
  | cons rule later ih =>
    obtain ⟨laws, paired⟩ := ih (fun rule member => library rule (List.mem_cons_of_mem _ member))
    have member := library rule List.mem_cons_self
    rw [← List.map_fst_zip (show Rule.builtin.length ≤ Law.builtin.length from Nat.le_refl _)] at member
    obtain ⟨⟨_, law⟩, pair, rfl⟩ := List.mem_map.mp member
    exact ⟨law :: laws, .cons pair paired⟩

theorem follows_of_paired (paired : List.Forall₂ Paired rules laws) :
    List.Forall₂ Rule.Follows rules laws ∧ ∀ law ∈ laws, law ∈ Law.builtin := by
  induction paired with
  | nil => exact ⟨.nil, by simp⟩
  | cons pair later ih =>
    have follows := (List.forall₂_iff_zip.mp Rule.builtin_follow).2 pair
    exact ⟨.cons follows ih.1, List.forall_mem_cons.mpr ⟨(List.of_mem_zip pair).2, ih.2⟩⟩

theorem exists_laws (library : ∀ rule ∈ rules, rule ∈ Rule.builtin) :
    ∃ laws, List.Forall₂ Rule.Follows rules laws ∧ ∀ law ∈ laws, law ∈ Law.builtin := by
  obtain ⟨laws, paired⟩ := exists_paired library
  exact ⟨laws, follows_of_paired paired⟩

theorem lightening_of_builtin (library : ∀ law ∈ laws, law ∈ Law.builtin) : Lightening laws :=
  fun law member _ _ _ drafted => Law.weight_of_mem_builtin (library law member) drafted

theorem patience_of_represents (represents : A.Represents (C.fill t)) :
    t.formula.weight < A.patience ∧ 2 * t.size + 2 ≤ A.patience := by
  have small := represents.size_le_live
  have light := t.weight_lt_two_pow
  have grown : 2 ^ t.size ≤ 2 ^ A.live := Nat.pow_le_pow_right (by omega) small
  have counted : A.live < 2 ^ A.live := Nat.lt_two_pow_self
  have split : A.patience = 2 ^ A.live * 2 ^ 20 := Nat.pow_add 2 A.live 20
  omega

theorem runPass_reaches (follows : List.Forall₂ Rule.Follows o.rules laws)
    (library : ∀ law ∈ laws, law ∈ Law.builtin) (represents : A.Represents (C.fill t))
    (covers : Covers C t start) (verbosity : Verbosity) :
    ∃ g n, t.formula.pass laws o.settle A.patience C.above = some (g, n) ∧
      Reaches A {} C (o.runPass verbosity A start) (g, n) := by
  obtain ⟨light, deep⟩ := patience_of_represents represents
  have answered : ∃ r, t.formula.pass laws o.settle A.patience C.above = some r :=
    pass_isSome (lightening_of_builtin library) light
  obtain ⟨⟨g, n⟩, passed⟩ := answered
  exact ⟨g, n, passed, runPassTo_simulates follows represents covers passed deep⟩

/-- A pass over a root does with what is below it what a pass does with the formula, and replaces nothing
if and only if the laws leave the formula alone. -/
theorem runPass_root {before after : List Tree} {root : Handle} (follows : List.Forall₂ Rule.Follows o.rules laws)
    (library : ∀ law ∈ laws, law ∈ Law.builtin) (represents : A.Represents ((Place.top before root after).fill t))
    (verbosity : Verbosity) :
    ∃ B j s, o.runPass verbosity A root = .ok (B, j) ∧ B.Represents ((Place.top before root after).fill s) ∧
      t.formula.pass laws o.settle A.patience none = some (s.formula, j.replacements) ∧
      (j.replacements = 0 ↔ t.formula.Inert laws none) ∧ (j.replacements = 0 → B = A) := by
  obtain ⟨g, n, passed, B, j, s, ran, represented, -, rfl, count, kept⟩ :=
    runPass_reaches follows library represents (Or.inr ⟨rfl, rfl⟩) verbosity
  obtain rfl : j.replacements = n := by simpa using count
  exact ⟨B, j, s, ran, represented, passed, Formula.pass_idle_iff passed, kept⟩

/-! ### What runs keep -/

/-- One pass has answered, left a term in a place, and changed nothing if it counted nothing. -/
def PassKeeps (R : Formula → Nat → Formula → Prop) (A : Arena) (C : Place) (t : Term)
    (result : Checked (Arena × Journal)) : Prop :=
  ∃ B j s, result = .ok (B, j) ∧ B.Represents (C.fill s) ∧ B.roots = A.roots ∧
    R t.formula j.replacements s.formula ∧ (j.replacements = 0 → B = A)

theorem runPass_keeps (congruent : Congruent R)
    (step : ∀ law ∈ laws, ∀ above f d, law above f = some d → R f 1 d.formula)
    (follows : List.Forall₂ Rule.Follows o.rules laws) (library : ∀ law ∈ laws, law ∈ Law.builtin)
    (represents : A.Represents (C.fill t)) (covers : Covers C t start) (verbosity : Verbosity) :
    PassKeeps R A C t (o.runPass verbosity A start) := by
  obtain ⟨g, n, passed, B, j, s, ran, represented, roots, rfl, count, kept⟩ :=
    runPass_reaches follows library represents covers verbosity
  have counted : j.replacements = n := by simpa using count
  refine ⟨B, j, s, ran, represented, roots, ?_, fun none => kept (counted.symm.trans none)⟩
  rw [counted]
  exact congruent.pass step passed

theorem passesUntilStable_keeps (congruent : Congruent R)
    (step : ∀ law ∈ laws, ∀ above f d, law above f = some d → R f 1 d.formula)
    (follows : List.Forall₂ Rule.Follows o.rules laws) (library : ∀ law ∈ laws, law ∈ Law.builtin)
    (represents : A.Represents (C.fill t)) (top : C.grandparent = none) (verbosity : Verbosity)
    (left done : Nat) (j : Journal) :
    ∃ B k s n, o.passesUntilStable verbosity C.parent left done (A, j) = .ok (B, k) ∧
      B.Represents (C.fill s) ∧ B.roots = A.roots ∧ R t.formula n s.formula ∧
      k.replacements = j.replacements + n := by
  induction left generalizing A t done j with
  | zero => exact ⟨A, _, t, 0, rfl, represents, rfl, congruent.refl _, Journal.replacements_report _ _ _⟩
  | succ left ih =>
    obtain ⟨A₁, pass, s, ran, represented, roots, kept, -⟩ :=
      runPass_keeps congruent step follows library represents (Or.inr ⟨top, rfl⟩) verbosity
    rw [passesUntilStable, ran]
    simp only [bind, Except.bind]
    split
    · exact ⟨A₁, _, s, pass.replacements, rfl, represented, roots, kept, Journal.replacements_report _ _ _⟩
    · obtain ⟨B, k, u, n, rest, represented', roots', kept', count⟩ := ih represented (done + 1) (j.append pass)
      refine ⟨B, k, u, pass.replacements + n, rest, represented', roots'.trans roots,
        congruent.trans kept kept', ?_⟩
      rw [count, Journal.append, Nat.add_assoc]

/-! ### From arenas to places -/

theorem exists_covers {trees : List Tree} (represents : A.Represents trees) (live : A.isLive start = .ok true) :
    ∃ C t, Place.fill C t = trees ∧ Covers C t start := by
  obtain ⟨n, held⟩ := Arena.cell?_of_isLive live
  rcases represents.locate held with ⟨x, member, rfl⟩ | ⟨C, t, rfl, rfl⟩
  · obtain ⟨before, after, rfl⟩ := List.append_of_mem member
    exact ⟨.top before x.root after, x.body, rfl, Or.inr ⟨rfl, rfl⟩⟩
  · exact ⟨C, t, rfl, Or.inl rfl⟩

theorem exists_top {trees : List Tree} (represents : A.Represents trees) (listed : start ∈ A.roots) :
    ∃ before after t, (Place.top before start after).fill t = trees := by
  obtain ⟨x, member, rfl⟩ := (represents.mem_roots start).mp listed
  obtain ⟨before, after, rfl⟩ := List.append_of_mem member
  exact ⟨before, after, x.body, rfl⟩

end Optimizer

end Propositional
