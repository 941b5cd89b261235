import Propositional.Proofs.Formula.Weight

/-!
# Passes over formulas

What a pass does, said of formulas instead of arenas. A formula below a connective is offered to some
laws, and the first draft that one of them proposes takes its place. If drafts are settled, their new
nodes are offered next, children first, and so is a part that was moved to the top. A pass settles the
whole formula as if all its nodes were new.

Answers are counted: beside the formula stands the number of drafts that took the place of something.
A relation that each law keeps and that goes through connectives is kept by passes, and since laws
make formulas lighter, as many nested steps as the weight of a formula are enough.
-/

namespace Propositional

/-- A formula with the number of replacements that led to it. -/
abbrev Outcome := Formula × Nat

namespace Draft

/-- Offers the new nodes of a draft, children first. -/
def settle (ask : Option Connective → Formula → Option Outcome) :
    Option Connective → Draft Formula → Option Outcome
  | _, moved f => some (f, 0)
  | above, binary op left right =>
    (left.settle ask (some op)).bind fun l =>
    (right.settle ask (some op)).bind fun r =>
    (ask above (.binary op l.1 r.1)).map fun f => (f.1, l.2 + r.2 + f.2)
  | above, not operand =>
    (operand.settle ask none).bind fun g =>
    (ask above (.not g.1)).map fun f => (f.1, g.2 + f.2)
  | above, parens inner =>
    (inner.settle ask above).bind fun g =>
    (ask above (.parens g.1)).map fun f => (f.1, g.2 + f.2)
  | above, id name => ask above (.id name)
  | above, literal value => ask above (.literal value)

end Draft

namespace Formula

/-- The first draft that one of the laws proposes. -/
def firstDraft (laws : List Law) (above : Option Connective) (f : Formula) : Option (Draft Formula) :=
  laws.findSome? fun law => law above f

/-- Offers a formula to some laws, in a given number of nested steps. -/
def offer (laws : List Law) (settling : Bool) : Nat → Option Connective → Formula → Option Outcome
  | 0, _, _ => none
  | steps + 1, above, f =>
    match firstDraft laws above f with
    | none => some (f, 0)
    | some d =>
      if settling then
        (d.settle (offer laws settling steps) above).bind fun g =>
        (if d.isMoved then offer laws settling steps above g.1 else some (g.1, 0)).map fun f =>
          (f.1, g.2 + f.2 + 1)
      else some (d.formula, 1)

/-- The formula as a draft in which nothing is moved. -/
def toDraft : Formula → Draft Formula
  | binary op left right => .binary op left.toDraft right.toDraft
  | not operand => .not operand.toDraft
  | parens inner => .parens inner.toDraft
  | id name => .id name
  | literal value => .literal value

/-- Offers all nodes of a formula, children first. -/
def pass (laws : List Law) (settling : Bool) (steps : Nat) (above : Option Connective) (f : Formula) :
    Option Outcome :=
  f.toDraft.settle (offer laws settling steps) above

@[simp] theorem formula_toDraft (f : Formula) : f.toDraft.formula = f := by
  induction f <;> simp_all [toDraft, Draft.formula]

end Formula

variable {ask : Option Connective → Formula → Option Outcome} {laws : List Law} {settling : Bool}
  {steps n : Nat} {above : Option Connective} {op : Connective} {f g : Formula} {d : Draft Formula}
  {R : Formula → Nat → Formula → Prop}

/-! ### Taking answers apart -/

theorem Draft.settle_binary_eq_some {left right : Draft Formula}
    (settled : (Draft.binary op left right).settle ask above = some (g, n)) :
    ∃ l i r j k, left.settle ask (some op) = some (l, i) ∧ right.settle ask (some op) = some (r, j) ∧
      ask above (.binary op l r) = some (g, k) ∧ n = i + j + k := by
  rw [Draft.settle] at settled
  obtain ⟨⟨l, i⟩, first, settled⟩ := Option.bind_eq_some_iff.mp settled
  obtain ⟨⟨r, j⟩, second, settled⟩ := Option.bind_eq_some_iff.mp settled
  obtain ⟨⟨f, k⟩, top, same⟩ := Option.map_eq_some_iff.mp settled
  obtain ⟨rfl, rfl⟩ := Prod.mk.inj same
  exact ⟨l, i, r, j, k, first, second, top, rfl⟩

theorem Draft.settle_not_eq_some (settled : (Draft.not d).settle ask above = some (g, n)) :
    ∃ f i k, d.settle ask none = some (f, i) ∧ ask above (.not f) = some (g, k) ∧ n = i + k := by
  rw [Draft.settle] at settled
  obtain ⟨⟨f, i⟩, below, settled⟩ := Option.bind_eq_some_iff.mp settled
  obtain ⟨⟨f, k⟩, top, same⟩ := Option.map_eq_some_iff.mp settled
  obtain ⟨rfl, rfl⟩ := Prod.mk.inj same
  exact ⟨_, i, k, below, top, rfl⟩

theorem Draft.settle_parens_eq_some (settled : (Draft.parens d).settle ask above = some (g, n)) :
    ∃ f i k, d.settle ask above = some (f, i) ∧ ask above (.parens f) = some (g, k) ∧ n = i + k := by
  rw [Draft.settle] at settled
  obtain ⟨⟨f, i⟩, below, settled⟩ := Option.bind_eq_some_iff.mp settled
  obtain ⟨⟨f, k⟩, top, same⟩ := Option.map_eq_some_iff.mp settled
  obtain ⟨rfl, rfl⟩ := Prod.mk.inj same
  exact ⟨_, i, k, below, top, rfl⟩

theorem Formula.offer_eq_some (offered : f.offer laws settling (steps + 1) above = some (g, n)) :
    firstDraft laws above f = none ∧ g = f ∧ n = 0 ∨
      ∃ d, firstDraft laws above f = some d ∧
        (settling = false ∧ g = d.formula ∧ n = 1 ∨
          settling = true ∧ ∃ h i k, d.settle (Formula.offer laws settling steps) above = some (h, i) ∧
            (if d.isMoved then h.offer laws settling steps above else some (h, 0)) = some (g, k) ∧
            n = i + k + 1) := by
  rw [Formula.offer] at offered
  cases drafted : firstDraft laws above f with
  | none =>
    rw [drafted] at offered
    obtain ⟨rfl, rfl⟩ := Prod.mk.inj (Option.some.inj offered)
    exact Or.inl ⟨rfl, rfl, rfl⟩
  | some d =>
    rw [drafted] at offered
    refine Or.inr ⟨d, rfl, ?_⟩
    cases settling with
    | false =>
      obtain ⟨rfl, rfl⟩ := Prod.mk.inj (Option.some.inj offered)
      exact Or.inl ⟨rfl, rfl, rfl⟩
    | true =>
      obtain ⟨⟨h, i⟩, below, offered⟩ := Option.bind_eq_some_iff.mp offered
      obtain ⟨⟨g, k⟩, top, same⟩ := Option.map_eq_some_iff.mp offered
      obtain ⟨rfl, rfl⟩ := Prod.mk.inj same
      exact Or.inr ⟨rfl, h, i, k, below, top, rfl⟩

theorem Formula.offer_of_firstDraft_eq_none (nothing : firstDraft laws above f = none)
    (offered : f.offer laws settling steps above = some (g, n)) : g = f ∧ n = 0 := by
  cases steps with
  | zero => simp [Formula.offer] at offered
  | succ steps =>
    rcases Formula.offer_eq_some offered with ⟨-, same, count⟩ | ⟨d, drafted, -⟩
    · exact ⟨same, count⟩
    · simp [nothing] at drafted

theorem Formula.offer_of_moved {h : Formula} (drafted : firstDraft laws above f = some (.moved h))
    (offered : f.offer laws true steps above = some (g, n)) :
    ∃ steps m, h.offer laws true steps above = some (g, m) := by
  cases steps with
  | zero => simp [Formula.offer] at offered
  | succ steps =>
    rcases Formula.offer_eq_some offered with ⟨nothing, -⟩ | ⟨d, drafted', ended⟩
    · simp [nothing] at drafted
    · obtain rfl := Option.some.inj (drafted.symm.trans drafted')
      rcases ended with ⟨off, -⟩ | ⟨-, h', i, k, below, top, -⟩
      · simp at off
      · obtain ⟨rfl, -⟩ := Prod.mk.inj (Option.some.inj below)
        exact ⟨steps, k, top⟩

theorem Formula.offer_of_new (drafted : firstDraft laws above f = some d) (new : d.isMoved = false)
    (offered : f.offer laws true steps above = some (g, n)) :
    ∃ steps m, d.settle (Formula.offer laws true steps) above = some (g, m) := by
  cases steps with
  | zero => simp [Formula.offer] at offered
  | succ steps =>
    rcases Formula.offer_eq_some offered with ⟨nothing, -⟩ | ⟨d', drafted', ended⟩
    · simp [nothing] at drafted
    · obtain rfl := Option.some.inj (drafted.symm.trans drafted')
      rcases ended with ⟨off, -⟩ | ⟨-, h', i, k, below, top, -⟩
      · simp at off
      · rw [new] at top
        obtain ⟨rfl, -⟩ := Prod.mk.inj (Option.some.inj top)
        exact ⟨steps, i, below⟩

theorem Formula.exists_law_of_firstDraft (drafted : firstDraft laws above f = some d) :
    ∃ law ∈ laws, law above f = some d :=
  List.exists_of_findSome?_eq_some drafted

/-! ### What passes keep -/

/-- A relation with a count that adds up along steps and goes through connectives. -/
structure Congruent (R : Formula → Nat → Formula → Prop) : Prop where
  refl : ∀ f, R f 0 f
  trans : ∀ {f g h n m}, R f n g → R g m h → R f (n + m) h
  binary : ∀ {op l n l' r m r'}, R l n l' → R r m r' → R (.binary op l r) (n + m) (.binary op l' r')
  not : ∀ {f n g}, R f n g → R (.not f) n (.not g)
  parens : ∀ {f n g}, R f n g → R (.parens f) n (.parens g)

theorem Congruent.settle (congruent : Congruent R)
    (offers : ∀ above f g n, ask above f = some (g, n) → R f n g)
    (settled : d.settle ask above = some (g, n)) : R d.formula n g := by
  induction d generalizing above g n with
  | moved f =>
    obtain ⟨rfl, rfl⟩ := Prod.mk.inj (Option.some.inj settled)
    exact congruent.refl f
  | binary op left right ihl ihr =>
    obtain ⟨l, i, r, j, k, first, second, top, rfl⟩ := Draft.settle_binary_eq_some settled
    exact congruent.trans (congruent.binary (ihl first) (ihr second)) (offers _ _ _ _ top)
  | not operand ih =>
    obtain ⟨f, i, k, below, top, rfl⟩ := Draft.settle_not_eq_some settled
    exact congruent.trans (congruent.not (ih below)) (offers _ _ _ _ top)
  | parens inner ih =>
    obtain ⟨f, i, k, below, top, rfl⟩ := Draft.settle_parens_eq_some settled
    exact congruent.trans (congruent.parens (ih below)) (offers _ _ _ _ top)
  | id name | literal value => exact offers _ _ _ _ settled

/-- A relation that each law keeps is kept by an offer, however deep it settles. -/
theorem Congruent.offer (congruent : Congruent R)
    (step : ∀ law ∈ laws, ∀ above f d, law above f = some d → R f 1 d.formula)
    (offered : f.offer laws settling steps above = some (g, n)) : R f n g := by
  induction steps generalizing above f g n with
  | zero => simp [Formula.offer] at offered
  | succ steps ih =>
    rcases Formula.offer_eq_some offered with ⟨-, rfl, rfl⟩ | ⟨d, drafted, done⟩
    · exact congruent.refl _
    · obtain ⟨law, member, proposed⟩ := Formula.exists_law_of_firstDraft drafted
      have first := step law member above f d proposed
      rcases done with ⟨-, rfl, rfl⟩ | ⟨-, h, i, k, below, top, rfl⟩
      · exact first
      · have settled := congruent.settle (fun _ _ _ _ => ih) below
        have last : R h k g := by
          split at top
          · exact ih top
          · obtain ⟨rfl, rfl⟩ := Prod.mk.inj (Option.some.inj top)
            exact congruent.refl h
        rw [Nat.add_comm]
        exact congruent.trans first (congruent.trans settled last)

theorem Congruent.pass (congruent : Congruent R)
    (step : ∀ law ∈ laws, ∀ above f d, law above f = some d → R f 1 d.formula)
    (passed : f.pass laws settling steps above = some (g, n)) : R f n g := by
  have settled := congruent.settle (fun _ _ _ _ => congruent.offer step) passed
  rwa [Formula.formula_toDraft] at settled

theorem congruent_eval (σ : String → Bool) : Congruent fun f _ g => g.eval σ = f.eval σ where
  refl f := rfl
  trans first second := second.trans first
  binary left right := by rw [Formula.eval, Formula.eval, left, right]
  not below := by rw [Formula.eval, Formula.eval, below]
  parens below := below

theorem congruent_weight : Congruent fun f n g => g.weight + n ≤ f.weight where
  refl f := Nat.le_refl _
  trans first second := by omega
  binary left right := by simp only [Formula.weight]; omega
  not below := by simp only [Formula.weight]; omega
  parens below := by simp only [Formula.weight]; omega

/-! ### Enough steps -/

/-- All laws make formulas lighter. -/
def Lightening (laws : List Law) : Prop :=
  ∀ law ∈ laws, ∀ above f d, law above f = some d → d.formula.weight < f.weight

theorem weight_of_offer (lightening : Lightening laws)
    (offered : f.offer laws settling steps above = some (g, n)) : g.weight + n ≤ f.weight :=
  congruent_weight.offer (fun law member above f d proposed => lightening law member above f d proposed) offered

theorem weight_of_settle (lightening : Lightening laws)
    (settled : d.settle (Formula.offer laws settling steps) above = some (g, n)) :
    g.weight + n ≤ d.formula.weight :=
  congruent_weight.settle (fun _ _ _ _ => weight_of_offer lightening) settled

theorem settle_isSome (lightening : Lightening laws)
    (offers : ∀ above (f : Formula), f.weight < steps → ∃ r, f.offer laws settling steps above = some r)
    (above : Option Connective) (light : d.formula.weight < steps) :
    ∃ r, d.settle (Formula.offer laws settling steps) above = some r := by
  induction d generalizing above with
  | moved f => exact ⟨_, rfl⟩
  | binary op left right ihl ihr =>
    simp only [Draft.formula, Formula.weight] at light
    obtain ⟨⟨l, i⟩, first⟩ := ihl (some op) (by omega)
    obtain ⟨⟨r, j⟩, second⟩ := ihr (some op) (by omega)
    have lighterLeft := weight_of_settle lightening first
    have lighterRight := weight_of_settle lightening second
    obtain ⟨r, top⟩ := offers above (.binary op l r) (by simp only [Formula.weight]; omega)
    rw [Draft.settle, first, Option.bind_some, second, Option.bind_some, top]
    exact ⟨_, rfl⟩
  | not operand ih =>
    simp only [Draft.formula, Formula.weight] at light
    obtain ⟨⟨f, i⟩, below⟩ := ih none (by omega)
    have lighter := weight_of_settle lightening below
    obtain ⟨r, top⟩ := offers above (.not f) (by simp only [Formula.weight]; omega)
    rw [Draft.settle, below, Option.bind_some, top]
    exact ⟨_, rfl⟩
  | parens inner ih =>
    simp only [Draft.formula, Formula.weight] at light
    obtain ⟨⟨f, i⟩, below⟩ := ih above (by omega)
    have lighter := weight_of_settle lightening below
    obtain ⟨r, top⟩ := offers above (.parens f) (by simp only [Formula.weight]; omega)
    rw [Draft.settle, below, Option.bind_some, top]
    exact ⟨_, rfl⟩
  | id name | literal value => exact offers above _ light

/-- An offer ends in as many nested steps as the formula weighs. -/
theorem offer_isSome (lightening : Lightening laws) (above : Option Connective) (f : Formula)
    (light : f.weight < steps) : ∃ r, f.offer laws settling steps above = some r := by
  induction steps generalizing above f with
  | zero => omega
  | succ steps ih =>
    rw [Formula.offer]
    cases drafted : Formula.firstDraft laws above f with
    | none => exact ⟨_, rfl⟩
    | some d =>
      obtain ⟨law, member, proposed⟩ := Formula.exists_law_of_firstDraft drafted
      have lighter := lightening law member above f d proposed
      cases settling with
      | false => exact ⟨_, rfl⟩
      | true =>
        obtain ⟨⟨g, i⟩, below⟩ := settle_isSome lightening ih above
          (show d.formula.weight < steps by omega)
        have settled := weight_of_settle lightening below
        obtain ⟨r, again⟩ := ih above g (by omega)
        simp only [if_true, below, Option.bind_some]
        split
        · rw [again]
          exact ⟨_, rfl⟩
        · exact ⟨_, rfl⟩

theorem pass_isSome (lightening : Lightening laws) (light : f.weight < steps) :
    ∃ r, f.pass laws settling steps above = some r :=
  settle_isSome lightening (offer_isSome lightening) above (by rwa [Formula.formula_toDraft])

end Propositional
