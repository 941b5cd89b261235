import Propositional.Proofs.Formula.Chain

/-!
# Formulas up to rearrangement

A formula is rearranged by exchanging the operands of a connective, by regrouping two nodes of one
connective and by adding and removing parentheses, anywhere in it. For each connective, the formulas up
to rearrangement are a commutative semigroup, and a formula is the product of its operands there. So two
formulas can be rearranged into each other if and only if their operands can be put in an order in which
each can be rearranged into the one beside it.
-/

namespace Propositional.Formula

variable {f g : Formula} {op : Connective} {σ : String → Bool}

/-- One step of rearranging, at any place in the formula. -/
inductive Rearranges : Formula → Formula → Prop
  | swap (op : Connective) (left right : Formula) : Rearranges (.binary op left right) (.binary op right left)
  | regroupRight (op : Connective) (a b c : Formula) :
      Rearranges (.binary op (.binary op a b) c) (.binary op a (.binary op b c))
  | regroupLeft (op : Connective) (a b c : Formula) :
      Rearranges (.binary op a (.binary op b c)) (.binary op (.binary op a b) c)
  | wrap (f : Formula) : Rearranges f (.parens f)
  | unwrap (f : Formula) : Rearranges (.parens f) f
  | left {f g : Formula} (op : Connective) (right : Formula) (step : Rearranges f g) :
      Rearranges (.binary op f right) (.binary op g right)
  | right {f g : Formula} (op : Connective) (left : Formula) (step : Rearranges f g) :
      Rearranges (.binary op left f) (.binary op left g)
  | not {f g : Formula} (step : Rearranges f g) : Rearranges (.not f) (.not g)
  | parens {f g : Formula} (step : Rearranges f g) : Rearranges (.parens f) (.parens g)

theorem Rearranges.symm (step : Rearranges f g) : Rearranges g f := by
  induction step with
  | swap op left right => exact .swap op right left
  | regroupRight op a b c => exact .regroupLeft op a b c
  | regroupLeft op a b c => exact .regroupRight op a b c
  | wrap f => exact .unwrap f
  | unwrap f => exact .wrap f
  | left op right _ ih => exact .left op right ih
  | right op left _ ih => exact .right op left ih
  | not _ ih => exact .not ih
  | parens _ ih => exact .parens ih

instance : Std.Symm Rearranges := ⟨fun _ _ => Rearranges.symm⟩

theorem Rearranges.eval (step : Rearranges f g) : f.eval σ = g.eval σ := by
  induction step with
  | swap op left right => exact op.apply_comm _ _
  | regroupRight op a b c | regroupLeft op a b c =>
    simp only [Formula.eval]
    cases op <;> simp only [Connective.apply, Bool.and_assoc, Bool.or_assoc]
  | wrap f | unwrap f => rfl
  | left op right _ ih | right op left _ ih | not _ ih | parens _ ih => simp only [Formula.eval, ih]

/-- Finitely many steps lead from one formula to the other. -/
def rearrangement : Setoid Formula where
  r := Relation.ReflTransGen Rearranges
  iseqv :=
    { refl := fun _ => .refl
      symm := Std.Symm.symm _ _
      trans := .trans }

theorem eval_of_rearranged (rearranged : Relation.ReflTransGen Rearranges f g) : f.eval σ = g.eval σ := by
  induction rearranged with
  | refl => rfl
  | tail _ step ih => exact ih.trans step.eval

/-! ### Classes of formulas -/

/-- A formula up to rearrangement. -/
abbrev Arrangement := Quotient rearrangement

def arrangement (f : Formula) : Arrangement := Quotient.mk rearrangement f

theorem arrangement_eq_iff : f.arrangement = g.arrangement ↔ Relation.ReflTransGen Rearranges f g :=
  Quotient.eq

theorem Rearranges.arrangement_eq (step : Rearranges f g) : f.arrangement = g.arrangement :=
  Quotient.sound (Relation.ReflTransGen.single step)

theorem arrangement_parens (f : Formula) : (parens f).arrangement = f.arrangement :=
  (Rearranges.unwrap f).arrangement_eq

theorem arrangement_peel (f : Formula) : f.peel.arrangement = f.arrangement := by
  induction f with
  | parens inner ih => exact ih.trans (arrangement_parens inner).symm
  | _ => rfl

namespace Arrangement

def join (op : Connective) : Arrangement → Arrangement → Arrangement :=
  Quotient.map₂ (binary op) fun _ _ first _ _ second =>
    (first.lift (binary op · _) fun _ _ => .left op _).trans (second.lift (binary op _) fun _ _ => .right op _)

/-- Below a connective, arrangements can be exchanged and regrouped. -/
@[reducible] def semigroup (op : Connective) : CommSemigroup Arrangement where
  mul := join op
  mul_comm a b := Quotient.inductionOn₂ a b fun f g => (Rearranges.swap op f g).arrangement_eq
  mul_assoc a b c := Quotient.inductionOn₃ a b c fun f g h => (Rearranges.regroupRight op f g h).arrangement_eq

def negate : Arrangement → Arrangement :=
  Quotient.map not fun _ _ rearranged => rearranged.lift not fun _ _ => .not

end Arrangement

/-! ### Operands -/

/-- The operands of the chain of `op` at the top, up to rearrangement. -/
def arrangements (op : Connective) (f : Formula) : List Arrangement := (f.operands op).map arrangement

theorem arrangements_binary (op : Connective) (left right : Formula) :
    (binary op left right).arrangements op = left.arrangements op ++ right.arrangements op := by
  rw [arrangements, operands_binary, List.map_append]
  rfl

theorem arrangements_of_ne {op' : Connective} (other : op' ≠ op) (left right : Formula) :
    (binary op' left right).arrangements op = [(binary op' left right).arrangement] := by
  rw [arrangements, operands, if_neg other, List.map_singleton]

/-- A formula is the product of its operands. There is no empty product: the adjoined unit only lets the
product be taken over a list. -/
theorem prod_arrangements (op : Connective) (f : Formula) :
    letI := Arrangement.semigroup op
    ((f.arrangements op).map WithOne.coe).prod = f.arrangement := by
  let := Arrangement.semigroup op
  induction f with
  | parens inner ih => exact ih.trans (congrArg _ (arrangement_parens inner).symm)
  | binary op' left right ihl ihr =>
    by_cases same : op' = op
    · subst same
      rw [arrangements_binary, List.map_append, List.prod_append]
      exact congrArg₂ (· * ·) ihl ihr
    · rw [arrangements_of_ne same, List.map_singleton, List.prod_singleton]
  | not | id | literal => exact List.prod_singleton

theorem Rearranges.arrangements_perm (step : Rearranges f g) (op : Connective) :
    (f.arrangements op).Perm (g.arrangements op) := by
  -- A step at the top of an operand keeps the class of that operand, so only a step between links counts.
  have link : ∀ {op' : Connective} {a b c d : Formula}, Rearranges (binary op' a b) (binary op' c d) →
      (op' = op → (a.arrangements op ++ b.arrangements op).Perm (c.arrangements op ++ d.arrangements op)) →
      ((binary op' a b).arrangements op).Perm ((binary op' c d).arrangements op) := by
    intro op' a b c d step between
    by_cases same : op' = op
    · subst same
      rw [arrangements_binary, arrangements_binary]
      exact between rfl
    · rw [arrangements_of_ne same, arrangements_of_ne same, step.arrangement_eq]
  induction step with
  | swap op' left right => exact link (.swap op' left right) fun _ => List.perm_append_comm
  | regroupRight op' a b c =>
    refine link (.regroupRight op' a b c) ?_
    rintro rfl
    rw [arrangements_binary, arrangements_binary, List.append_assoc]
  | regroupLeft op' a b c =>
    refine link (.regroupLeft op' a b c) ?_
    rintro rfl
    rw [arrangements_binary, arrangements_binary, List.append_assoc]
  | wrap f | unwrap f => exact .refl _
  | left op' right step ih => exact link (.left op' right step) fun _ => ih.append_right _
  | right op' left step ih => exact link (.right op' left step) fun _ => ih.append_left _
  | not step _ =>
    have operand : ∀ f : Formula, (Formula.not f).arrangements op = [(Formula.not f).arrangement] :=
      fun _ => rfl
    rw [operand, operand, step.not.arrangement_eq]
  | parens _ ih => exact ih

/-- Two formulas can be rearranged into each other if and only if their operands can. -/
theorem arrangement_eq_iff_perm (op : Connective) :
    f.arrangement = g.arrangement ↔ (f.arrangements op).Perm (g.arrangements op) := by
  constructor
  · intro same
    induction arrangement_eq_iff.mp same with
    | refl => exact .refl _
    | tail earlier step ih =>
      exact (ih (arrangement_eq_iff.mpr earlier)).trans (step.arrangements_perm op)
  · intro perm
    let := Arrangement.semigroup op
    have products := (perm.map WithOne.coe).prod_eq
    rw [prod_arrangements, prod_arrangements] at products
    exact WithOne.coe_injective products

/-! ### The top of a formula -/

/-- What every rearrangement leaves at the top, parentheses aside. -/
inductive Core where
  | chain (op : Connective)
  | not (operand : Arrangement)
  | id (name : String)
  | literal (value : Bool)

def core : Formula → Core
  | binary op _ _ => .chain op
  | not operand => .not operand.arrangement
  | parens inner => inner.core
  | id name => .id name
  | literal value => .literal value

theorem Rearranges.core_eq (step : Rearranges f g) : f.core = g.core := by
  induction step with
  | not step _ => exact congrArg Core.not step.arrangement_eq
  | parens _ ih => exact ih
  | _ => rfl

theorem core_eq_of_arrangement_eq (same : f.arrangement = g.arrangement) : f.core = g.core := by
  induction arrangement_eq_iff.mp same with
  | refl => rfl
  | tail earlier step ih => exact (ih (arrangement_eq_iff.mpr earlier)).trans step.core_eq

theorem arrangement_id_eq_iff {x y : String} : (id x).arrangement = (id y).arrangement ↔ x = y :=
  ⟨fun same => Core.id.inj (core_eq_of_arrangement_eq same), congrArg (arrangement ∘ id)⟩

theorem arrangement_literal_eq_iff {x y : Bool} : (literal x).arrangement = (literal y).arrangement ↔ x = y :=
  ⟨fun same => Core.literal.inj (core_eq_of_arrangement_eq same), congrArg (arrangement ∘ literal)⟩

theorem arrangement_not_eq_iff : (not f).arrangement = (not g).arrangement ↔ f.arrangement = g.arrangement :=
  ⟨fun same => Core.not.inj (core_eq_of_arrangement_eq same), congrArg Arrangement.negate⟩

end Propositional.Formula
