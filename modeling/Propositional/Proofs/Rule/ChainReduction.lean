import Propositional.Proofs.Arena.Prediction
import Propositional.Proofs.Arena.Rearrangement

/-!
# What the rule for chains proposes

The operands of a chain are compared each with each: the rule keeps those that no earlier one equals,
unless one of them is the negation of another, and it refuses a chain that is of this form already. No
hash of the nodes has a part in that. The hash may take any values that equal subtrees share, since such
values are a function of the fingerprints.
-/

namespace Propositional

/-! ### Fingerprints -/

namespace Formula

variable {f g : Formula} {xs ys : List Arena.Mark}

/-- The marks of a formula in front of others. -/
def marksThen (f : Formula) (others : List Arena.Mark) : List Arena.Mark :=
  f.fold (Arena.collectShape (fun _ => Arena.marks) ⟨0⟩) others

@[simp] theorem marksThen_binary (op : Connective) (left right : Formula) :
    (binary op left right).marksThen xs =
      .variant .binary :: .connective op :: left.marksThen (right.marksThen xs) := rfl

@[simp] theorem marksThen_not (operand : Formula) :
    (not operand).marksThen xs = .variant .not :: operand.marksThen xs := rfl

@[simp] theorem marksThen_parens (inner : Formula) :
    (parens inner).marksThen xs = .variant .parens :: inner.marksThen xs := rfl

@[simp] theorem marksThen_id (name : String) :
    (id name).marksThen xs = .variant .id :: .name name :: xs := rfl

@[simp] theorem marksThen_literal (value : Bool) :
    (literal value).marksThen xs = .variant .literal :: .value value :: xs := rfl

/-- The marks of a formula tell where they end and which formula it is. -/
theorem marksThen_inj (same : f.marksThen xs = g.marksThen ys) : f = g ∧ xs = ys := by
  induction f generalizing g xs ys with
  | binary op left right ihl ihr =>
    cases g with
    | binary op' left' right' =>
      simp only [marksThen_binary, List.cons.injEq, Arena.Mark.connective.injEq, true_and] at same
      obtain ⟨rfl, both⟩ := same
      obtain ⟨rfl, second⟩ := ihl both
      obtain ⟨rfl, rfl⟩ := ihr second
      exact ⟨rfl, rfl⟩
    | _ => simp at same
  | not operand ih =>
    cases g with
    | not operand' =>
      obtain ⟨rfl, rfl⟩ := ih (List.cons.inj same).2
      exact ⟨rfl, rfl⟩
    | _ => simp at same
  | parens inner ih =>
    cases g with
    | parens inner' =>
      obtain ⟨rfl, rfl⟩ := ih (List.cons.inj same).2
      exact ⟨rfl, rfl⟩
    | _ => simp at same
  | id x => cases g <;> simp_all
  | literal x => cases g <;> simp_all

theorem formulaMarks_inj (same : Arena.formulaMarks f = Arena.formulaMarks g) : f = g := by
  have ended : f.marksThen [] = g.marksThen [] := same
  exact (marksThen_inj ended).1

end Formula

namespace Arena

variable {A : Arena} {t s : Term} {p q : Option Handle} {op : Connective} {h : Handle} {xs : List Handle}

/-! ### Chains in arenas -/

/-- The node is no link of the chain and no pair of parentheses. -/
def Plain (A : Arena) (op : Connective) (h : Handle) : Prop :=
  ∃ shape, A.shape h = .ok shape ∧ (∀ inner, shape ≠ .parens inner) ∧ ∀ l r, shape ≠ .binary op l r

/-- The operands of the chain of `op` at a node, from left to right. -/
inductive Chain (A : Arena) (op : Connective) : Handle → List Handle → Prop where
  | parens {h inner : Handle} {xs : List Handle} (read : A.shape h = .ok (.parens inner))
      (below : Chain A op inner xs) : Chain A op h xs
  | link {h l r : Handle} {xs ys : List Handle} (read : A.shape h = .ok (.binary op l r))
      (left : Chain A op l xs) (right : Chain A op r ys) : Chain A op h (xs ++ ys)
  | operand {h : Handle} (plain : A.Plain op h) : Chain A op h [h]

/-- The chain groups to the left, and no parentheses are between its links or around its operands. -/
inductive LeftGrouped (A : Arena) (op : Connective) : Handle → List Handle → Prop where
  | pair {h l r : Handle} (read : A.shape h = .ok (.binary op l r)) (left : A.Plain op l)
      (right : A.Plain op r) : LeftGrouped A op h [l, r]
  | link {h l r : Handle} {xs : List Handle} (read : A.shape h = .ok (.binary op l r))
      (left : LeftGrouped A op l xs) (right : A.Plain op r) : LeftGrouped A op h (xs ++ [r])

/-- One of the nodes is the negation of another, parentheses below the `NOT` aside. -/
def Complementary (A : Arena) (xs : List Handle) : Prop :=
  ∃ x ∈ xs, ∃ y z, A.shape x = .ok (.not y) ∧ A.peel y = .ok z ∧ ∃ x' ∈ xs, A.structuralEq z x' = .ok true

/-- The nodes that no earlier one equals, in their order. -/
inductive FirstOccurrences (A : Arena) : List Handle → List Handle → Prop where
  | nil : FirstOccurrences A [] []
  | keep {xs ys : List Handle} {x : Handle} (earlier : FirstOccurrences A xs ys)
      (new : ∀ y ∈ xs, A.structuralEq y x = .ok false) : FirstOccurrences A (xs ++ [x]) (ys ++ [x])
  | drop {xs ys : List Handle} {x y : Handle} (earlier : FirstOccurrences A xs ys) (known : y ∈ xs)
      (same : A.structuralEq y x = .ok true) : FirstOccurrences A (xs ++ [x]) ys

end Arena

def Term.Plain (op : Connective) : Term → Prop
  | binary _ op' _ _ => op' ≠ op
  | parens .. => False
  | not .. | id .. | literal .. => True

theorem Term.Plain.operands {t : Term} {op : Connective} (plain : t.Plain op) : t.operands op = [t] := by
  cases t with
  | binary h op' left right => exact if_neg plain
  | parens h inner => exact plain.elim
  | not | id | literal => rfl

theorem Term.Plain.formula_operands {t : Term} {op : Connective} (plain : t.Plain op) :
    t.formula.operands op = [t.formula] := by
  rw [← map_formula_operands, plain.operands]
  rfl

theorem Term.plain_iff {t : Term} {op : Connective} :
    t.Plain op ↔ t.formula.peel = t.formula ∧ t.formula.head? ≠ some op := by
  cases t with
  | parens h inner => simp [Plain, formula, Formula.peel, Formula.peel_ne_parens]
  | _ => simp [Plain, formula, Formula.peel, Formula.head?]

namespace Arena

variable {A : Arena} {t s : Term} {p q : Option Handle} {op : Connective} {h : Handle} {xs : List Handle}

namespace Holds

theorem plain_iff (holds : A.Holds p t) : A.Plain op t.handle ↔ t.Plain op := by
  unfold Plain
  rw [holds.shape]
  cases t with
  | binary h op' left right => simp [Term.shape, Term.Plain]
  | parens h inner => simp [Term.shape, Term.Plain]
  | not | id | literal => simp [Term.shape, Term.Plain]

theorem chain (holds : A.Holds p t) (op : Connective) : Chain A op t.handle ((t.operands op).map Term.handle) := by
  induction t generalizing p with
  | binary h op' left right ihl ihr =>
    by_cases same : op' = op
    · subst same
      rw [Term.operands, if_pos rfl, List.map_append]
      exact .link holds.shape (ihl (holds.child (by simp [Term.children])))
        (ihr (holds.child (by simp [Term.children])))
    · rw [Term.operands, if_neg same]
      exact .operand (holds.plain_iff.mpr same)
  | parens h inner ih => exact .parens holds.shape (ih (holds.child (by simp [Term.children])))
  | not | id | literal => exact .operand (holds.plain_iff.mpr trivial)

/-- A node that reads as a link is one, and its children are terms. -/
theorem exists_link {l r : Handle} (holds : A.Holds p t) (top : t.handle = h)
    (read : A.shape h = .ok (.binary op l r)) :
    ∃ left right, t = .binary h op left right ∧ left.handle = l ∧ right.handle = r ∧
      A.Holds (some h) left ∧ A.Holds (some h) right := by
  subst top
  rw [holds.shape] at read
  cases t with
  | binary h op' left right =>
    obtain ⟨rfl, rfl, rfl⟩ : op' = op ∧ left.handle = l ∧ right.handle = r := by
      simpa [Term.shape] using read
    exact ⟨left, right, rfl, rfl, rfl, holds.child (by simp [Term.children]),
      holds.child (by simp [Term.children])⟩
  | _ => simp [Term.shape] at read

end Holds

theorem LeftGrouped.formula_eq (grouped : LeftGrouped A op h xs) (holds : A.Holds p t) (top : t.handle = h) :
    t.formula = .chain op (t.formula.operands op) := by
  induction grouped generalizing t p with
  | pair read left right =>
    obtain ⟨l, r, rfl, rfl, rfl, holdsLeft, holdsRight⟩ := holds.exists_link top read
    rw [Term.formula, Formula.operands_binary, (holdsLeft.plain_iff.mp left).formula_operands,
      (holdsRight.plain_iff.mp right).formula_operands]
    rfl
  | link read left right ih =>
    obtain ⟨l, r, rfl, rfl, rfl, holdsLeft, holdsRight⟩ := holds.exists_link top read
    rw [Term.formula, Formula.operands_binary, (holdsRight.plain_iff.mp right).formula_operands,
      Formula.chain_append_singleton (Formula.operands_ne_nil op _), ← ih holdsLeft rfl]

/-- In a chain that is the one of its operands, the right operand is plain and the left part is again the
chain of its operands. -/
theorem eq_chain_of_binary {left right : Term}
    (same : (Term.binary h op left right).formula = .chain op ((Term.binary h op left right).formula.operands op)) :
    right.Plain op ∧ left.formula = .chain op (left.formula.operands op) := by
  rw [Term.formula, Formula.operands_binary] at same
  -- The last operand of the right part is the whole of it.
  obtain ⟨others, last, split⟩ := List.eq_nil_or_concat (right.formula.operands op) |>.resolve_left
    (Formula.operands_ne_nil op _)
  have some_left : left.formula.operands op ++ others ≠ [] := by
    simp [Formula.operands_ne_nil op left.formula]
  rw [split, List.concat_eq_append, ← List.append_assoc, Formula.chain_append_singleton some_left] at same
  obtain ⟨-, leftSame, rightSame⟩ := Formula.binary.inj same
  have plain : right.Plain op := by
    rw [Term.plain_iff, rightSame]
    apply Formula.peeled_of_mem_operands (f := right.formula)
    rw [split, List.concat_eq_append]
    exact List.mem_append_right _ List.mem_cons_self
  refine ⟨plain, ?_⟩
  have none_left : others = [] := by
    have alone := plain.formula_operands
    rw [split, List.concat_eq_append] at alone
    simpa using congrArg List.length alone
  rw [none_left, List.append_nil] at leftSame
  exact leftSame

theorem chain_ne_parens {fs : List Formula} {g : Formula} (peeled : ∀ f ∈ fs, f.peel = f) :
    Formula.chain op fs ≠ .parens g := by
  induction fs using List.reverseRecOn with
  | nil => simp [Formula.chain]
  | append_singleton fs f =>
    by_cases empty : fs = []
    · subst empty
      intro same
      have peeled := peeled f (by simp)
      rw [show f = .parens g from same] at peeled
      exact Formula.peel_ne_parens _ _ peeled
    · rw [Formula.chain_append_singleton empty]
      simp

theorem Holds.leftGrouped (holds : A.Holds p t) (binary : t.formula.head? = some op)
    (same : t.formula = .chain op (t.formula.operands op)) :
    LeftGrouped A op t.handle ((t.operands op).map Term.handle) := by
  induction t generalizing p with
  | binary h op' left right ihl ihr =>
    obtain rfl : op' = op := Option.some.inj binary
    obtain ⟨plainRight, sameLeft⟩ := eq_chain_of_binary same
    have holdsLeft := holds.child (c := left) (by simp [Term.children])
    have holdsRight := holds.child (c := right) (by simp [Term.children])
    have plain := holdsRight.plain_iff.mpr plainRight
    rw [Term.operands, if_pos rfl, plainRight.operands, List.map_append]
    by_cases plainLeft : left.Plain op'
    · rw [plainLeft.operands]
      exact .pair holds.shape (holdsLeft.plain_iff.mpr plainLeft) plain
    · refine .link holds.shape (ihl holdsLeft ?_ sameLeft) plain
      cases left with
      | binary k op'' l r => simpa [Term.Plain, Term.formula, Formula.head?] using plainLeft
      | parens k inner =>
        apply absurd sameLeft.symm
        apply chain_ne_parens
        intro f member
        exact (Formula.peeled_of_mem_operands member).1
      | not | id | literal => exact absurd trivial plainLeft
  | _ => simp [Term.formula, Formula.head?] at binary

/-! ### Comparing the operands -/

variable {ts : List Term}

theorem structuralEq_reads (first : A.Reads t) (second : A.Reads s) :
    A.structuralEq t.handle s.handle = .ok (decide (t.formula = s.formula)) := by
  obtain ⟨⟨p, held⟩, small⟩ := first
  obtain ⟨⟨q, held'⟩, -⟩ := second
  exact structuralEq_term held held' small

theorem firstOccurrences_distinct (reads : ∀ t ∈ ts, A.Reads t) :
    FirstOccurrences A (ts.map Term.handle) ((Rule.distinct ts).reverse.map Term.handle) := by
  induction ts using List.reverseRecOn with
  | nil => exact .nil
  | append_singleton ts t ih =>
    have before := ih fun u member => reads u (List.mem_append_left _ member)
    have last := reads t (by simp)
    rw [Rule.distinct_append_singleton, Rule.addDistinct, List.map_append, List.map_singleton]
    split
    · rename_i known
      rw [Rule.mem_distinct] at known
      obtain ⟨u, member, same⟩ := List.mem_map.mp known
      apply before.drop (List.mem_map_of_mem member)
      rw [structuralEq_reads (reads u (List.mem_append_left _ member)) last, decide_eq_true same]
    · rename_i new
      rw [Rule.mem_distinct] at new
      rw [List.reverse_cons, List.map_append, List.map_singleton]
      apply before.keep
      intro y known
      obtain ⟨u, member, rfl⟩ := List.mem_map.mp known
      rw [structuralEq_reads (reads u (List.mem_append_left _ member)) last]
      have different : u.formula ≠ t.formula := fun same => new (List.mem_map.mpr ⟨u, member, same⟩)
      rw [decide_eq_false different]

theorem Reads.peel_of_not {k : Handle} (reads : A.Reads (.not k s)) :
    A.peel s.handle = .ok s.peel.handle ∧ A.Reads s.peel := by
  obtain ⟨⟨p, holds⟩, small⟩ := reads
  have below := holds.child (c := s) (by simp [Term.children])
  rw [Term.size_not] at small
  have operand : A.Reads s := ⟨⟨_, below⟩, by omega⟩
  exact ⟨peel_term below operand.2, operand.subterm fun p => s.peel_mem_subterms p⟩

theorem complementary_iff_law (reads : ∀ t ∈ ts, A.Reads t) :
    A.Complementary (ts.map Term.handle) ↔ Law.complementary (ts.map Term.formula) = true := by
  rw [Law.complementary_iff]
  constructor
  · rintro ⟨x, first, y, z, negation, peeled, x', second, equal⟩
    obtain ⟨u, member, rfl⟩ := List.mem_map.mp first
    obtain ⟨v, member', rfl⟩ := List.mem_map.mp second
    obtain ⟨⟨p, holds⟩, -⟩ := reads u member
    rw [holds.shape] at negation
    cases u with
    | not k s =>
      obtain rfl : s.handle = y := by simpa [Term.shape] using negation
      obtain ⟨found, inside⟩ := (reads _ member).peel_of_not
      rw [found] at peeled
      obtain rfl := Except.ok.inj peeled
      rw [structuralEq_reads inside (reads v member')] at equal
      have same : s.peel.formula = v.formula := of_decide_eq_true (Except.ok.inj equal)
      refine ⟨s.formula, List.mem_map.mpr ⟨_, member, rfl⟩, ?_⟩
      rw [← s.formula_peel, same]
      exact List.mem_map_of_mem member'
    | _ => simp [Term.shape] at negation
  · rintro ⟨g, negation, plain⟩
    obtain ⟨u, member, same⟩ := List.mem_map.mp negation
    obtain ⟨v, member', same'⟩ := List.mem_map.mp plain
    cases u with
    | not k s =>
      obtain ⟨⟨p, holds⟩, -⟩ := reads _ member
      obtain ⟨found, inside⟩ := (reads _ member).peel_of_not
      have equal : s.peel.formula = v.formula := by
        rw [s.formula_peel, same', Formula.not.inj same]
      refine ⟨k, List.mem_map.mpr ⟨_, member, rfl⟩, s.handle, s.peel.handle, holds.shape, found, v.handle,
        List.mem_map_of_mem member', ?_⟩
      rw [structuralEq_reads inside (reads v member'), decide_eq_true equal]
    | _ => simp [Term.formula] at same

theorem pairwise_different_iff (reads : ∀ t ∈ ts, A.Reads t) :
    ((ts.map Term.handle).Pairwise fun x y => A.structuralEq x y = .ok false) ↔ (ts.map Term.formula).Nodup := by
  rw [List.nodup_iff_pairwise_ne, List.pairwise_map, List.pairwise_map]
  apply List.Pairwise.iff_of_mem
  intro t s first second
  rw [structuralEq_reads (reads t first) (reads s second), Except.ok.injEq, decide_eq_false_iff_not]

/-- Values of nodes that equal subtrees share are a function of the fingerprints. -/
theorem exists_digest {κ : Type} (holds : A.Holds p t) (small : t.size < A.bound) (hash : Handle → κ)
    (shared : ∀ a b, A.InSubtree t.handle a → A.InSubtree t.handle b → A.structuralEq a b = .ok true →
      hash a = hash b) :
    ∃ digest : List Mark → κ, ∀ a marks, A.InSubtree t.handle a → A.fingerprint a = .ok marks →
      digest marks = hash a := by
  classical
  have read : ∀ a, A.InSubtree t.handle a → ∃ s, s.handle = a ∧ A.Reads s := by
    intro a inside
    rw [holds.inSubtree_iff small] at inside
    obtain ⟨q, s, below, top⟩ := Term.exists_subterm_of_mem_handles p inside
    exact ⟨s, top, ⟨q, holds.subterm below⟩, Nat.lt_of_le_of_lt (Term.size_le_of_mem_subterms below) small⟩
  refine ⟨fun marks => if found : ∃ a, A.InSubtree t.handle a ∧ A.fingerprint a = .ok marks then
    hash found.choose else hash t.handle, fun a marks inside printed => ?_⟩
  have found : ∃ a, A.InSubtree t.handle a ∧ A.fingerprint a = .ok marks := ⟨a, inside, printed⟩
  obtain ⟨inside', printed'⟩ := found.choose_spec
  dsimp only
  rw [dif_pos found]
  apply shared _ _ inside' inside
  obtain ⟨s, top, reads⟩ := read _ inside'
  obtain ⟨u, rfl, reads'⟩ := read a inside
  rw [← top] at printed' ⊢
  obtain ⟨⟨q, held⟩, fits⟩ := reads
  obtain ⟨⟨q', held'⟩, fits'⟩ := reads'
  rw [fingerprint_term held fits] at printed'
  rw [fingerprint_term held' fits', ← printed'] at printed
  rw [structuralEq_term held held' fits, decide_eq_true (Formula.formulaMarks_inj (Except.ok.inj printed).symm)]

/-! ### The rule -/

theorem leftChain?_ne_literal {ys : List Handle} {c : Candidate} {value : Bool}
    (chained : Candidate.leftChain? op (ys.map .existing) = some c) : c ≠ .literal value := by
  induction ys using List.reverseRecOn with
  | nil => cases chained
  | append_singleton ys y =>
    rintro rfl
    cases ys with
    | nil => cases chained
    | cons first later => simp [Candidate.leftChain?] at chained

theorem complementary_eraseDups (fs : List Formula) : Law.complementary fs.eraseDups = Law.complementary fs := by
  rw [Bool.eq_iff_iff, Law.complementary_iff, Law.complementary_iff]
  simp only [List.mem_eraseDups]

theorem candidate_reducedTerm (reads : ∀ t ∈ ts, A.Reads t) (nonempty : ts ≠ []) (op : Connective) :
    ((Rule.reducedTerm op ts).candidate = .literal op.absorbing ↔ A.Complementary (ts.map Term.handle)) ∧
    (¬A.Complementary (ts.map Term.handle) → ∃ ys, A.FirstOccurrences (ts.map Term.handle) ys ∧
      Candidate.leftChain? op (ys.map .existing) = some (Rule.reducedTerm op ts).candidate) := by
  have law := complementary_iff_law reads
  rw [← complementary_eraseDups, ← Rule.map_formula_distinct] at law
  rw [Rule.reducedTerm, law]
  by_cases clash : Law.complementary ((Rule.distinct ts).reverse.map Term.formula) = true
  · rw [if_pos clash]
    exact ⟨⟨fun _ => clash, fun _ => rfl⟩, fun apart => absurd clash apart⟩
  · rw [if_neg clash]
    have some_left : (Rule.distinct ts).reverse ≠ [] := by
      intro none_left
      have erased := Rule.map_formula_distinct ts
      rw [none_left] at erased
      exact eraseDups_ne_nil (by simpa using nonempty) erased.symm
    have chained := Rule.leftChain?_existing op some_left
    exact ⟨⟨fun same => absurd same (leftChain?_ne_literal chained), fun same => absurd same clash⟩,
      fun _ => ⟨_, firstOccurrences_distinct reads, chained⟩⟩

/-- A chain is refused if it is the chain of its operands and there is nothing to reduce. -/
theorem formula_eq_reduced_iff (holds : A.Holds p t) (link : t.formula.head? = some op)
    (reads : ∀ s ∈ t.operands op, A.Reads s) :
    t.formula = ((Rule.reducedTerm op (t.operands op)).map Term.formula).formula ↔
      A.LeftGrouped op t.handle ((t.operands op).map Term.handle) ∧
      (((t.operands op).map Term.handle).Pairwise fun x y => A.structuralEq x y = .ok false) ∧
      ¬A.Complementary ((t.operands op).map Term.handle) := by
  rw [pairwise_different_iff reads, complementary_iff_law reads, Rule.map_reducedTerm, Law.reduced,
    complementary_eraseDups, Term.map_formula_operands]
  by_cases clash : Law.complementary (t.formula.operands op) = true
  · have literal : t.formula ≠ .literal op.absorbing := by
      intro same
      rw [same] at link
      cases link
    simp [clash, Draft.formula, literal]
  · rw [if_neg clash, Draft.formula_chain]
    constructor
    · intro same
      have kept : t.formula.operands op = (t.formula.operands op).eraseDups := by
        have some_left := eraseDups_ne_nil (Formula.operands_ne_nil op t.formula)
        have regained := Formula.operands_chain_of_operands some_left fun f member =>
          Formula.peeled_of_mem_operands ((eraseDups_sublist _).subset member)
        rw [← same] at regained
        exact regained
      rw [← kept] at same
      refine ⟨holds.leftGrouped link same, ?_, clash⟩
      rw [kept]
      exact nodup_eraseDups _
    · rintro ⟨grouped, nodup, -⟩
      rw [eraseDups_of_nodup nodup]
      exact grouped.formula_eq holds rfl

/-- What the rule for chains does at a link of a chain: whatever the hash, it proposes the absorbing
literal if two operands are complementary, or else the chain of their first occurrences, and it refuses
its proposal exactly if there is nothing to regroup or to leave out. -/
theorem chainReduction_spec {l r : Handle} (wellFormed : A.WellFormed)
    (found : A.shape h = .ok (.binary op l r)) :
    ∃ xs c, A.Chain op h xs ∧ A.chainOperands h op = .ok xs ∧ Rule.chainReduction.propose A h = .ok c ∧
      (∀ (κ : Type) [DecidableEq κ] (digest : List Mark → κ), Rule.reducedChainBy digest A h = .ok c) ∧
      (∀ (κ : Type) (hash : Handle → κ), (∀ a b, A.InSubtree h a → A.InSubtree h b →
        A.structuralEq a b = .ok true → hash a = hash b) →
        ∃ digest : List Mark → κ, ∀ a marks, A.InSubtree h a → A.fingerprint a = .ok marks →
          digest marks = hash a) ∧
      (c = .literal op.absorbing ↔ A.Complementary xs) ∧
      (¬A.Complementary xs → ∃ ys, A.FirstOccurrences xs ys ∧
        Candidate.leftChain? op (ys.map .existing) = some c) ∧
      ∃ accepted, Rule.chainReduction.accept A h c = .ok accepted ∧
        (accepted = false ↔ A.LeftGrouped op h xs ∧
          (xs.Pairwise fun x y => A.structuralEq x y = .ok false) ∧ ¬A.Complementary xs) := by
  obtain ⟨n, held, read⟩ := cell?_of_shape found
  obtain ⟨trees, forest⟩ := wellFormed.exists_represents
  rcases forest.locate_cell held with ⟨root, -⟩ | ⟨C, t, rfl, rfl, rfl⟩
  · rw [read] at root
    cases root
  obtain ⟨left, right, same, -⟩ := forest.holds.exists_link rfl found
  have reads : A.Reads t := ⟨⟨_, forest.holds⟩, forest.size_lt_bound⟩
  have operands : ∀ s ∈ t.operands op, A.Reads s :=
    fun s member => reads.subterm fun p => Term.operand_mem_subterms p member
  have link : t.formula.head? = some op := by rw [same]; rfl
  have nonempty : t.operands op ≠ [] := by
    intro none_left
    apply Formula.operands_ne_nil op t.formula
    rw [← Term.map_formula_operands, none_left]
    rfl
  have within := Rule.reducedTerm_within forest.nodup op
  obtain ⟨absorbs, keeps⟩ := candidate_reducedTerm operands nonempty op
  have proposed : ∀ (κ : Type) [DecidableEq κ] (digest : List Mark → κ), Rule.reducedChainBy digest A t.handle =
      .ok (Rule.reducedTerm op (t.operands op)).candidate := by
    intro κ _ digest
    rw [same] at reads ⊢
    exact Rule.reducedChainBy_term digest reads
  refine ⟨_, _, forest.holds.chain op, chainOperands_term op forest.holds forest.size_lt_bound,
    proposed UInt64 Rule.digest, proposed, fun κ hash => exists_digest forest.holds forest.size_lt_bound hash,
    absorbs, keeps, _, accept_chainReduction (forest.reproduces_candidate within), ?_⟩
  rw [Bool.not_eq_false', decide_eq_true_iff]
  exact formula_eq_reduced_iff forest.holds link operands

theorem chainReduction_spec_regroupedPair :
    (regroupedPair.LeftGrouped .or ⟨3⟩ [⟨1⟩, ⟨2⟩] ∧ ¬regroupedPair.Complementary [⟨1⟩, ⟨2⟩]) ∧
    (regroupedPair.Chain .or ⟨8⟩ [⟨5⟩, ⟨7⟩] ∧ ¬regroupedPair.LeftGrouped .or ⟨8⟩ [⟨5⟩, ⟨7⟩] ∧
      Rule.chainReduction.propose regroupedPair ⟨8⟩ = .ok (.binary .or (.existing ⟨5⟩) (.existing ⟨7⟩))) := by
  constructor
  · obtain ⟨xs, c, -, listed, -, anyHash, -, -, -, accepted, asked, refused⟩ :=
      chainReduction_spec (h := ⟨3⟩) regroupedPair_wellFormed rfl
    have operands : regroupedPair.chainOperands ⟨3⟩ .or = .ok [⟨1⟩, ⟨2⟩] := by decide +kernel
    have proposed : Rule.reducedChainBy (fun _ => ()) regroupedPair ⟨3⟩ =
        .ok (.binary .or (.existing ⟨1⟩) (.existing ⟨2⟩)) := by decide +kernel
    have answer : Rule.chainReduction.accept regroupedPair ⟨3⟩ (.binary .or (.existing ⟨1⟩) (.existing ⟨2⟩)) =
        .ok false := by decide +kernel
    obtain rfl := Except.ok.inj (listed.symm.trans operands)
    obtain rfl := Except.ok.inj ((anyHash Unit fun _ => ()).symm.trans proposed)
    obtain ⟨grouped, -, apart⟩ := refused.mp (Except.ok.inj (asked.symm.trans answer))
    exact ⟨grouped, apart⟩
  · obtain ⟨xs, c, chain, listed, proposes, anyHash, -, absorbs, -, accepted, asked, refused⟩ :=
      chainReduction_spec (h := ⟨8⟩) regroupedPair_wellFormed rfl
    have operands : regroupedPair.chainOperands ⟨8⟩ .or = .ok [⟨5⟩, ⟨7⟩] := by decide +kernel
    have proposed : Rule.reducedChainBy (fun _ => ()) regroupedPair ⟨8⟩ =
        .ok (.binary .or (.existing ⟨5⟩) (.existing ⟨7⟩)) := by decide +kernel
    have answer : Rule.chainReduction.accept regroupedPair ⟨8⟩ (.binary .or (.existing ⟨5⟩) (.existing ⟨7⟩)) =
        .ok true := by decide +kernel
    have different : regroupedPair.structuralEq ⟨5⟩ ⟨7⟩ = .ok false := by decide +kernel
    obtain rfl := Except.ok.inj (listed.symm.trans operands)
    obtain rfl := Except.ok.inj ((anyHash Unit fun _ => ()).symm.trans proposed)
    obtain rfl := Except.ok.inj (asked.symm.trans answer)
    refine ⟨chain, fun grouped => ?_, proposes⟩
    have idle := refused.mpr ⟨grouped, by simp [different], mt absorbs.mpr (by simp)⟩
    simp at idle

end Arena

end Propositional
