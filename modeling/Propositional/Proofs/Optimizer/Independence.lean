import Propositional.Proofs.Optimizer.Termination

/-!
# Runs depend on the tree alone

Two arenas may hold equal trees under different handles, beside different trees and with different
vacant cells. Passes over the two trees replace equally often and leave equal trees, since each does
with its nodes what a pass does with the formula, and the formula is the same.
-/

namespace Propositional.Optimizer

variable {o : Optimizer} {laws : List Law} {A B : Arena} {C D : Place} {t u : Term} {start start' r s : Handle}
  {first second : Checked (Arena × Journal)}

/-- A pass reaches what the pass over its formula answers in any number of steps that is enough. -/
theorem runPass_reaches_of_le (follows : List.Forall₂ Rule.Follows o.rules laws)
    (library : ∀ law ∈ laws, law ∈ Law.builtin) (represents : A.Represents (C.fill t))
    (covers : Covers C t start) (verbosity : Verbosity) {steps : Nat} (enough : A.patience ≤ steps)
    {result : Outcome} (passed : t.formula.pass laws o.settle steps C.above = some result) :
    Reaches A {} C (o.runPass verbosity A start) result := by
  obtain ⟨-, deep⟩ := patience_of_represents represents
  obtain ⟨-, -, -, E, j, -, ran, -⟩ := runPass_reaches follows library represents covers verbosity
  have later : Reaches A {} C (o.runPassTo verbosity steps A start) result :=
    runPassTo_simulates follows represents covers passed (by omega)
  rwa [runPassTo_mono ran enough, ← ran] at later

/-! ### Two runs side by side -/

/-- Two runs have counted the same and left terms with the same formula in their places. -/
def Alike (C D : Place) (first second : Checked (Arena × Journal)) : Prop :=
  ∃ A j t B k u, first = .ok (A, j) ∧ second = .ok (B, k) ∧ j.replacements = k.replacements ∧
    A.Represents (C.fill t) ∧ B.Represents (D.fill u) ∧ t.formula = u.formula

theorem runPass_alike (follows : List.Forall₂ Rule.Follows o.rules laws)
    (library : ∀ law ∈ laws, law ∈ Law.builtin) (left : A.Represents (C.fill t)) (coversLeft : Covers C t start)
    (right : B.Represents (D.fill u)) (coversRight : Covers D u start') (above : C.above = D.above)
    (formulas : t.formula = u.formula) (v w : Verbosity) :
    Alike C D (o.runPass v A start) (o.runPass w B start') := by
  -- The arenas grant their passes different numbers of steps, but one number is enough for both.
  let steps := max A.patience B.patience
  have light : t.formula.weight < steps :=
    lt_of_lt_of_le (patience_of_represents left).1 (Nat.le_max_left _ _)
  obtain ⟨⟨g, n⟩, passed⟩ : ∃ result, t.formula.pass laws o.settle steps C.above = some result :=
    pass_isSome (lightening_of_builtin library) light
  obtain ⟨A', j, t', ranLeft, representsLeft, -, formulaLeft, countLeft, -⟩ :=
    runPass_reaches_of_le follows library left coversLeft v (Nat.le_max_left _ _) passed
  rw [formulas, above] at passed
  obtain ⟨B', k, u', ranRight, representsRight, -, formulaRight, countRight, -⟩ :=
    runPass_reaches_of_le follows library right coversRight w (Nat.le_max_right _ _) passed
  exact ⟨A', j, t', B', k, u', ranLeft, ranRight, countLeft.trans countRight.symm, representsLeft,
    representsRight, formulaLeft.trans formulaRight.symm⟩

theorem passesUntilStable_alike (follows : List.Forall₂ Rule.Follows o.rules laws)
    (library : ∀ law ∈ laws, law ∈ Law.builtin) (left : A.Represents (C.fill t)) (topLeft : C.grandparent = none)
    (right : B.Represents (D.fill u)) (topRight : D.grandparent = none) (above : C.above = D.above)
    (formulas : t.formula = u.formula) (v w : Verbosity) (passes done : Nat) {j k : Journal}
    (counts : j.replacements = k.replacements) :
    Alike C D (o.passesUntilStable v C.parent passes done (A, j))
      (o.passesUntilStable w D.parent passes done (B, k)) := by
  induction passes generalizing A B t u done j k with
  | zero => exact ⟨A, _, t, B, _, u, rfl, rfl, by simpa using counts, left, right, formulas⟩
  | succ passes ih =>
    obtain ⟨A', pass, t', B', pass', u', ranLeft, ranRight, samePass, left', right', formulas'⟩ :=
      runPass_alike follows library left (Or.inr ⟨topLeft, rfl⟩) right (Or.inr ⟨topRight, rfl⟩) above formulas v w
    have total : (j.append pass).replacements = (k.append pass').replacements := by
      rw [Journal.append, Journal.append, counts, samePass]
    rw [passesUntilStable, passesUntilStable, ranLeft, ranRight]
    simp only [bind, Except.bind, samePass]
    split
    · exact ⟨A', _, t', B', _, u', rfl, rfl, by simpa using total, left', right', formulas'⟩
    · exact ih left' right' formulas' (done + 1) total

/-! ### Runs over equal trees -/

/-- Two runs have replaced equally often and left equal trees at two nodes. -/
def Agree (r s : Handle) (first second : Checked (Arena × Journal)) : Prop :=
  ∃ A j B k, first = .ok (A, j) ∧ second = .ok (B, k) ∧ j.replacements = k.replacements ∧
    A.structuralEqIn r B s = .ok true

theorem Alike.agree {before after before' after' : List Tree}
    (alike : Alike (.top before r after) (.top before' s after') first second) : Agree r s first second := by
  obtain ⟨A, j, t, B, k, u, ranFirst, ranSecond, counts, left, right, formulas⟩ := alike
  refine ⟨A, j, B, k, ranFirst, ranSecond, counts, ?_⟩
  have equal := left.structuralEqIn_root (x := ⟨r, t⟩) (by simp [Place.fill]) right (y := ⟨s, u⟩)
    (by simp [Place.fill])
  simpa [formulas] using equal

/-- What rules of the library make of a tree, and in how many replacements, depends on the tree alone:
not on its handles, on the vacant cells or on the other trees of the arena. -/
theorem runs_agree_of_structuralEq (left : A.WellFormed) (right : B.WellFormed)
    (library : ∀ rule ∈ o.rules, rule ∈ Rule.builtin) (listed : r ∈ A.roots) (listed' : s ∈ B.roots)
    (equal : A.structuralEqIn r B s = .ok true) (v w : Verbosity) :
    Agree r s (o.runPass v A r) (o.runPass w B s) ∧
      Agree r s (o.runUntilStable v A r) (o.runUntilStable w B s) := by
  obtain ⟨trees, represents⟩ := left.exists_represents
  obtain ⟨trees', represents'⟩ := right.exists_represents
  obtain ⟨laws, follows, members⟩ := exists_laws library
  obtain ⟨before, after, t, rfl⟩ := exists_top represents listed
  obtain ⟨before', after', u, rfl⟩ := exists_top represents' listed'
  have formulas : t.formula = u.formula := by
    rw [represents.structuralEqIn_root (x := ⟨r, t⟩) (by simp [Place.fill]) represents' (y := ⟨s, u⟩)
      (by simp [Place.fill])] at equal
    simpa using equal
  have coversLeft : Covers (.top before r after) t r := Or.inr ⟨rfl, rfl⟩
  have coversRight : Covers (.top before' s after') u s := Or.inr ⟨rfl, rfl⟩
  have once := runPass_alike follows members represents coversLeft represents' coversRight rfl formulas v w
  have often := passesUntilStable_alike follows members represents rfl represents' rfl rfl formulas v w
    o.maxPasses 0 (j := {}) (k := {}) rfl
  exact ⟨once.agree, often.agree⟩

/-- An arena with the tree of `negatedPair` under other handles, beside another tree and a vacant cell. -/
def crowdedPair : Arena where
  table :=
    { cells := #[.holding ⟨.root ⟨6⟩, none⟩, .holding ⟨.root ⟨7⟩, none⟩, .vacant 0,
        .holding ⟨.literal true, some ⟨5⟩⟩, .holding ⟨.binary .and ⟨8⟩ ⟨4⟩, some ⟨7⟩⟩,
        .holding ⟨.id "y", some ⟨1⟩⟩, .holding ⟨.not ⟨5⟩, some ⟨2⟩⟩, .holding ⟨.id "x", some ⟨5⟩⟩]
      head := 3
      count := 7 }
  roots := [⟨1⟩, ⟨2⟩]

theorem crowdedPair_wellFormed : crowdedPair.WellFormed := by
  let body : Term := .not ⟨7⟩ (.binary ⟨5⟩ .and (.id ⟨8⟩ "x") (.literal ⟨4⟩ true))
  have represents : crowdedPair.Represents [⟨⟨1⟩, .id ⟨6⟩ "y"⟩, ⟨⟨2⟩, body⟩] := by
    refine ⟨⟨?_, ?_, ?_, ?_, ?_⟩, ?_⟩
    · rintro ⟨i⟩ n
      rcases i with _ | _ | _ | _ | _ | _ | _ | _ | _ | i <;>
        simp [Arena.cell?, crowdedPair, Table.value?, Table.Entry.value?, forestCells, Tree.cells, body,
          Term.cells, Term.handle, eq_comm]
    · simp [forestCells, Tree.cells, body, Term.cells, Term.handle]
    · exact List.nodup_singleton 3
    · intro i
      rw [show crowdedPair.table.free = [3] from rfl]
      rcases i with _ | _ | _ | _ | _ | _ | _ | _ | _ | i <;>
        simp [crowdedPair, Table.value?, Table.Entry.value?, Table.size]
    · rfl
    · simp [crowdedPair, eq_comm]
  exact represents.wellFormed

theorem runs_agree_of_structuralEq_crowdedPair :
    Agree ⟨5⟩ ⟨2⟩ (({} : Optimizer).runPass .silent Arena.negatedPair ⟨5⟩)
        (({} : Optimizer).runPass .trace crowdedPair ⟨2⟩) ∧
      Agree ⟨5⟩ ⟨2⟩ (({} : Optimizer).runUntilStable .silent Arena.negatedPair ⟨5⟩)
        (({} : Optimizer).runUntilStable .trace crowdedPair ⟨2⟩) :=
  runs_agree_of_structuralEq Arena.negatedPair_wellFormed crowdedPair_wellFormed (fun _ member => member)
    (by simp [Arena.negatedPair]) (by simp [crowdedPair]) rfl .silent .trace

end Propositional.Optimizer
