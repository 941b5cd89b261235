import Propositional.Arena.Compare
import Propositional.Arena.Display
import Propositional.Proofs.Arena.Forest
import Propositional.Proofs.Formula.Law

/-!
# Reading terms

What the reading operations of an arena answer at the top of a term that it holds. Each goes down the
links to a given depth, and the number of nodes of the term is deep enough.
-/

namespace Propositional

namespace Formula

/-- The value of a formula from the values of its parts. -/
def fold {α : Type} (f : Shape α → α) : Formula → α
  | binary op left right => f (.binary op (left.fold f) (right.fold f))
  | not operand => f (.not (operand.fold f))
  | parens inner => f (.parens (inner.fold f))
  | id name => f (.id name)
  | literal value => f (.literal value)

theorem fold_evalShape (σ : String → Bool) (f : Formula) : f.fold (Arena.evalShape σ) = f.eval σ := by
  induction f <;> simp_all [fold, eval, Arena.evalShape]

end Formula

namespace Term

variable {α : Type} {t s : Term} {p q : Option Handle} {op : Connective}

def fold (f : Handle → Shape α → α) : Term → α
  | binary h op left right => f h (.binary op (left.fold f) (right.fold f))
  | not h operand => f h (.not (operand.fold f))
  | parens h inner => f h (.parens (inner.fold f))
  | id h name => f h (.id name)
  | literal h value => f h (.literal value)

def peel : Term → Term
  | parens _ inner => inner.peel
  | t => t

def operands (op : Connective) : Term → List Term
  | parens _ inner => inner.operands op
  | binary h op' left right =>
    if op' = op then left.operands op ++ right.operands op else [binary h op' left right]
  | t => [t]

theorem fold_formula (f : Shape α → α) (t : Term) : t.fold (fun _ => f) = t.formula.fold f := by
  induction t <;> simp_all [fold, formula, Formula.fold]

theorem formula_peel (t : Term) : t.peel.formula = t.formula.peel := by
  induction t with
  | parens h inner ih => exact ih
  | _ => rfl

theorem map_formula_operands (op : Connective) (t : Term) :
    (t.operands op).map formula = t.formula.operands op := by
  induction t with
  | parens h inner ih => exact ih
  | binary h op' left right ihl ihr =>
    by_cases same : op' = op
    · subst same
      simp [operands, formula, ihl, ihr]
    · simp [operands, formula, Formula.operands, same]
  | _ => rfl

theorem operands_peel (op : Connective) (t : Term) : t.peel.operands op = t.operands op := by
  induction t with
  | parens h inner ih => exact ih
  | _ => rfl

theorem size_le_of_mem_subterms (inside : (q, s) ∈ t.subterms p) : s.size ≤ t.size := by
  induction t using byChildren generalizing p with
  | step t ih =>
    rw [subterms_eq, List.mem_cons] at inside
    rcases inside with same | below
    · rw [(Prod.mk.inj same).2]
    · obtain ⟨c, child, below⟩ := List.mem_flatMap.mp below
      exact Nat.le_trans (ih c child below) (Nat.le_of_lt (size_le_of_mem_children child))

theorem peel_mem_subterms (p : Option Handle) (t : Term) : ∃ q, (q, t.peel) ∈ t.subterms p := by
  induction t generalizing p with
  | parens h inner ih =>
    obtain ⟨q, inside⟩ := ih (some h)
    exact ⟨q, List.mem_cons_of_mem _ inside⟩
  | _ => exact ⟨p, self_mem_subterms p _⟩

theorem size_peel_le (t : Term) : t.peel.size ≤ t.size :=
  size_le_of_mem_subterms (peel_mem_subterms none t).choose_spec

theorem operand_mem_subterms (p : Option Handle) (member : s ∈ t.operands op) :
    ∃ q, (q, s) ∈ t.subterms p := by
  induction t generalizing p with
  | parens h inner ih =>
    obtain ⟨q, inside⟩ := ih (some h) member
    exact ⟨q, List.mem_cons_of_mem _ inside⟩
  | binary h op' left right ihl ihr =>
    rw [operands] at member
    split at member
    · rcases List.mem_append.mp member with member | member
      · obtain ⟨q, inside⟩ := ihl (some h) member
        exact ⟨q, List.mem_cons_of_mem _ (List.mem_append_left _ inside)⟩
      · obtain ⟨q, inside⟩ := ihr (some h) member
        exact ⟨q, List.mem_cons_of_mem _ (List.mem_append_right _ inside)⟩
    · rw [List.mem_singleton.mp member]
      exact ⟨p, self_mem_subterms p _⟩
  | _ =>
    rw [List.mem_singleton.mp member]
    exact ⟨p, self_mem_subterms p _⟩

theorem size_lt_of_mem_operands {h : Handle} {left right : Term}
    (member : s ∈ (binary h op left right).operands op) : s.size < (binary h op left right).size := by
  rw [operands, if_pos rfl] at member
  rw [size_binary]
  rcases List.mem_append.mp member with member | member
  · obtain ⟨q, inside⟩ := operand_mem_subterms none member
    have := size_le_of_mem_subterms inside
    omega
  · obtain ⟨q, inside⟩ := operand_mem_subterms none member
    have := size_le_of_mem_subterms inside
    omega

end Term

namespace Arena

variable {α : Type} {A B : Arena} {C : Place} {t s : Term} {p q : Option Handle} {op : Connective}
  {depth : Nat}

/-! ### Recursion over a subtree -/

theorem foldTo_term (f : Handle → Shape α → α) (holds : A.Holds p t) (deep : t.size ≤ depth) :
    A.foldTo f depth t.handle = .ok (t.fold f) := by
  induction t generalizing p depth with
  | binary h op left right ihl ihr =>
    cases depth with
    | zero => simp [Term.size, Term.handles] at deep
    | succ depth =>
      simp only [Term.size, Term.handles, List.length_cons, List.length_append] at deep
      have first : A.foldTo f depth left.handle = .ok (left.fold f) :=
        ihl (holds.child (by simp [Term.children])) (by unfold Term.size; omega)
      have second : A.foldTo f depth right.handle = .ok (right.fold f) :=
        ihr (holds.child (by simp [Term.children])) (by unfold Term.size; omega)
      rw [foldTo, holds.shape]
      simp [Term.shape, Shape.traverse, first, second, Term.fold, bind, Except.bind, pure, Except.pure]
  | not h child ih | parens h child ih =>
    cases depth with
    | zero => simp [Term.size, Term.handles] at deep
    | succ depth =>
      simp only [Term.size, Term.handles, List.length_cons] at deep
      have below : A.foldTo f depth child.handle = .ok (child.fold f) :=
        ih (holds.child (by simp [Term.children])) (by unfold Term.size; omega)
      rw [foldTo, holds.shape]
      simp [Term.shape, Shape.traverse, below, Term.fold, bind, Except.bind, pure, Except.pure]
  | id h name | literal h value =>
    cases depth with
    | zero => simp [Term.size, Term.handles] at deep
    | succ depth =>
      rw [foldTo, holds.shape]
      rfl

theorem fold_term (f : Handle → Shape α → α) (holds : A.Holds p t) (small : t.size < A.bound) :
    A.fold f t.handle = .ok (t.fold f) :=
  foldTo_term f holds (Nat.le_of_lt small)

theorem fold_term_formula (f : Shape α → α) (holds : A.Holds p t) (small : t.size < A.bound) :
    A.fold (fun _ => f) t.handle = .ok (t.formula.fold f) := by
  rw [fold_term _ holds small, Term.fold_formula]

theorem fold_root (f : Handle → Shape α → α) {x : Tree} {p : Option Handle}
    (held : A.cell? x.root = some ⟨.root x.body.handle, p⟩) (holds : A.Holds q x.body)
    (small : x.body.size < A.bound) : A.fold f x.root = .ok (f x.root (.root (x.body.fold f))) := by
  have below : A.foldTo f A.table.size x.body.handle = .ok (x.body.fold f) :=
    foldTo_term f holds (Nat.le_of_lt_succ small)
  rw [fold, bound, foldTo, shape_of_cell? held]
  simp [Shape.traverse, below, bind, Except.bind, pure, Except.pure]

theorem display_term (holds : A.Holds p t) (small : t.size < A.bound) :
    ∃ text, A.display t.handle = .ok text := by
  rw [display, fold_term _ holds small]
  exact ⟨_, rfl⟩

def formulaMarks (f : Formula) : List Mark := f.fold (collectShape (fun _ => marks) ⟨0⟩) []

theorem fingerprint_term (holds : A.Holds p t) (small : t.size < A.bound) :
    A.fingerprint t.handle = .ok (formulaMarks t.formula) := by
  have read := fold_term_formula (collectShape (fun _ => marks) ⟨0⟩) holds small
  rw [fingerprint, collect]
  change (do return (← A.fold (fun _ => collectShape (fun _ => marks) ⟨0⟩) t.handle) []) = _
  rw [read]
  rfl

/-! ### Chains -/

theorem peelTo_term (holds : A.Holds p t) (deep : t.size ≤ depth) :
    A.peelTo depth t.handle = .ok t.peel.handle := by
  induction t generalizing p depth with
  | parens h inner ih =>
    cases depth with
    | zero => simp [Term.size, Term.handles] at deep
    | succ depth =>
      simp only [Term.size, Term.handles, List.length_cons] at deep
      rw [peelTo, holds.shape]
      exact ih (holds.child (by simp [Term.children])) (by unfold Term.size; omega)
  | _ =>
    cases depth with
    | zero => simp [Term.size, Term.handles] at deep
    | succ depth =>
      rw [peelTo, holds.shape]
      rfl

theorem peel_term (holds : A.Holds p t) (small : t.size < A.bound) :
    A.peel t.handle = .ok t.peel.handle :=
  peelTo_term holds (Nat.le_of_lt small)

theorem shape_peel_term (holds : A.Holds p t) : A.shape t.peel.handle = .ok t.peel.shape := by
  obtain ⟨q, inside⟩ := t.peel_mem_subterms p
  exact (holds.subterm inside).shape

theorem chainOperandsTo_term (op : Connective) (holds : A.Holds p t) (small : t.size < A.bound)
    (deep : t.size ≤ depth) :
    A.chainOperandsTo op depth t.handle = .ok ((t.operands op).map Term.handle) := by
  induction depth generalizing p t with
  | zero => exact absurd t.size_pos (by omega)
  | succ depth ih =>
    obtain ⟨q, inside⟩ := t.peel_mem_subterms p
    have peeled := holds.subterm inside
    have smaller := t.size_peel_le
    rw [chainOperandsTo, peel_term holds small, ← Term.operands_peel op t]
    simp only [bind, Except.bind, peeled.shape]
    -- The parentheses are off, so what is left is a link of the chain or an operand.
    cases top : t.peel with
    | binary h op' left right =>
      rw [top] at peeled smaller
      simp only [Term.size, Term.handles, List.length_cons, List.length_append] at smaller small deep
      have first := ih (peeled.child (c := left) (by simp [Term.children])) (by unfold Term.size; omega)
        (by unfold Term.size; omega)
      have second := ih (peeled.child (c := right) (by simp [Term.children])) (by unfold Term.size; omega)
        (by unfold Term.size; omega)
      by_cases same : op' = op
      · simp [Term.shape, same, first, second, Term.operands, pure, Except.pure]
      · simp [Term.shape, same, Term.operands, pure, Except.pure]
    | parens h inner =>
      exact absurd (congrArg Term.formula top) (by rw [Term.formula_peel]; exact Formula.peel_ne_parens _ _)
    | _ => rfl

theorem chainOperands_term (op : Connective) (holds : A.Holds p t) (small : t.size < A.bound) :
    A.chainOperands t.handle op = .ok ((t.operands op).map Term.handle) :=
  chainOperandsTo_term op holds small (Nat.le_of_lt small)

theorem headsChainFrom_place (op : Connective) {h : Handle} {height : Nat}
    (held : ∀ cell ∈ C.holder h :: C.outer, A.cell? cell.1 = some cell.2)
    (high : C.outer.length < height) :
    A.headsChainFrom op height (some C.parent) = .ok (decide (C.above ≠ some op)) := by
  induction C generalizing h height with
  | parens up k ih =>
    have top : A.cell? k = some ⟨.parens h, some up.parent⟩ := held _ List.mem_cons_self
    cases height with
    | zero => omega
    | succ height =>
      rw [Place.parent, headsChainFrom, shape_of_cell? top]
      simp only [bind, Except.bind, parent_of_cell? top]
      refine ih (fun cell member => held cell (List.mem_cons_of_mem _ member)) ?_
      simp only [Place.outer, List.length_cons] at high
      omega
  | left up k op' sibling | right up k op' sibling | top before k after | not up k =>
    have shape : A.shape k = .ok _ := shape_of_cell? (held _ List.mem_cons_self)
    cases height with
    | zero => omega
    | succ height =>
      rw [Place.parent, headsChainFrom, shape]
      simp [bind, Except.bind, pure, Except.pure, Place.holder, Place.shape, Place.above]

theorem Represents.headsChain (represents : A.Represents (C.fill t)) (op : Connective) :
    A.headsChain t.handle op = .ok (decide (C.above ≠ some op)) := by
  have owns := represents.owns_at
  have fits := owns.live_eq
  rw [Arena.headsChain, parent_of_cell? represents.holds.top]
  refine headsChainFrom_place op (h := t.handle) ?_ ?_
  · intro cell member
    refine owns.cell? ?_
    rcases List.mem_cons.mp member with same | outside
    · exact List.mem_cons.mpr (Or.inl same)
    · exact List.mem_cons_of_mem _ (List.mem_append_right _ outside)
  · simp only [List.length_cons, List.length_append] at fits
    unfold bound
    omega

/-! ### Comparisons -/

theorem structuralEqTo_term (left : A.Holds p t) (right : B.Holds q s) (deep : t.size ≤ depth) :
    structuralEqTo A B depth t.handle s.handle = .ok (decide (t.formula = s.formula)) := by
  induction t generalizing p q s depth with
  | binary h op l r ihl ihr =>
    cases depth with
    | zero => simp [Term.size, Term.handles] at deep
    | succ depth =>
      simp only [Term.size, Term.handles, List.length_cons, List.length_append] at deep
      rw [structuralEqTo, left.shape, right.shape]
      cases s with
      | binary k op' l' r' =>
        have first : structuralEqTo A B depth l.handle l'.handle = .ok (decide (l.formula = l'.formula)) :=
          ihl (left.child (by simp [Term.children])) (right.child (by simp [Term.children]))
            (by unfold Term.size; omega)
        have second : structuralEqTo A B depth r.handle r'.handle = .ok (decide (r.formula = r'.formula)) :=
          ihr (left.child (by simp [Term.children])) (right.child (by simp [Term.children]))
            (by unfold Term.size; omega)
        by_cases same : op = op' <;> by_cases equal : l.formula = l'.formula <;>
          simp [Term.shape, Term.formula, bind, Except.bind, pure, Except.pure, same, equal, first, second]
      | _ => simp [Term.shape, Term.formula, bind, Except.bind, pure, Except.pure]
  | not h l ih | parens h l ih =>
    cases depth with
    | zero => simp [Term.size, Term.handles] at deep
    | succ depth =>
      simp only [Term.size, Term.handles, List.length_cons] at deep
      rw [structuralEqTo, left.shape, right.shape]
      cases s with
      | not k l' | parens k l' =>
        have below : structuralEqTo A B depth l.handle l'.handle = .ok (decide (l.formula = l'.formula)) :=
          ih (left.child (by simp [Term.children])) (right.child (by simp [Term.children]))
            (by unfold Term.size; omega)
        simp [Term.shape, Term.formula, bind, Except.bind, pure, Except.pure, below]
      | _ => simp [Term.shape, Term.formula, bind, Except.bind, pure, Except.pure]
  | id h x | literal h x =>
    cases depth with
    | zero => simp [Term.size, Term.handles] at deep
    | succ depth =>
      rw [structuralEqTo, left.shape, right.shape]
      cases s <;> simp [Term.shape, Term.formula, bind, Except.bind, pure, Except.pure]

theorem structuralEq_term (left : A.Holds p t) (right : A.Holds q s) (small : t.size < A.bound) :
    A.structuralEq t.handle s.handle = .ok (decide (t.formula = s.formula)) := by
  refine structuralEqTo_term left right (Nat.le_trans (Nat.le_of_lt small) ?_)
  exact Nat.le_mul_of_pos_right _ (by unfold bound; omega)

end Arena

/-- The draft as a candidate, where the moved terms are in an arena. -/
def Draft.candidate : Draft Term → Candidate
  | moved t => .existing t.handle
  | binary op left right => .binary op left.candidate right.candidate
  | not operand => .not operand.candidate
  | parens inner => .parens inner.candidate
  | id name => .id name
  | literal value => .literal value

namespace Arena

variable {A : Arena} {t : Term} {p : Option Handle}

theorem reproduces_term {d : Draft Term} (holds : A.Holds p t) (small : t.size < A.bound)
    (parts : ∀ s ∈ d.parts, ∃ q, A.Holds q s) :
    A.reproduces t.handle d.candidate = .ok (decide (t.formula = (d.map Term.formula).formula)) := by
  induction d generalizing p t with
  | moved s =>
    obtain ⟨q, held⟩ := parts s (by simp [Draft.parts])
    rw [Draft.candidate, reproduces, holds.shape]
    exact structuralEq_term holds held small
  | binary op left right ihl ihr =>
    rw [Draft.candidate, reproduces, holds.shape]
    cases t with
    | binary h op' l r =>
      simp only [Term.size, Term.handles, List.length_cons, List.length_append] at small
      have first := ihl (t := l) (holds.child (by simp [Term.children])) (by unfold Term.size; omega)
        (fun s member => parts s (List.mem_append_left _ member))
      have second := ihr (t := r) (holds.child (by simp [Term.children])) (by unfold Term.size; omega)
        (fun s member => parts s (List.mem_append_right _ member))
      by_cases same : op' = op <;> by_cases equal : l.formula = (left.map Term.formula).formula <;>
        simp [Term.shape, Term.formula, Draft.map, Draft.formula, bind, Except.bind, pure, Except.pure,
          same, equal, first, second]
    | _ => simp [Term.shape, Term.formula, Draft.map, Draft.formula, bind, Except.bind, pure, Except.pure]
  | not inner ih | parens inner ih =>
    rw [Draft.candidate, reproduces, holds.shape]
    cases t with
    | not h l | parens h l =>
      simp only [Term.size, Term.handles, List.length_cons] at small
      have below := ih (t := l) (holds.child (by simp [Term.children])) (by unfold Term.size; omega) parts
      simp [Term.shape, Term.formula, Draft.map, Draft.formula, bind, Except.bind, pure, Except.pure, below]
    | _ => simp [Term.shape, Term.formula, Draft.map, Draft.formula, bind, Except.bind, pure, Except.pure]
  | id x | literal x =>
    rw [Draft.candidate, reproduces, holds.shape]
    cases t <;>
      simp [Term.shape, Term.formula, Draft.map, Draft.formula, bind, Except.bind, pure, Except.pure]

end Arena

end Propositional
