import Propositional.Proofs.Arena.Entry
import Propositional.Proofs.Optimizer.Run

/-!
# The order of the rules

Rules that exclude each other may be tried in any order, and so may rules for different sorts of nodes.
Of the rules of the library the three for negations exclude each other, since each wants another sort of
operand below the `NOT`. So the order counts between the two rules for binary nodes, and nowhere else:
literals are folded before chains are reduced, or passes are not the same.
-/

namespace Propositional

namespace Optimizer

variable {o o' : Optimizer} {r s rule : Rule} {rules rules' later later' : List Rule} {verbosity : Verbosity}
  {A : Arena} {h : Handle} {j : Journal} {variant : Variant}

/-! ### Rules that exclude each other -/

/-- At every node, either both rules meet the same fault or at most one of them is appropriate. -/
def Exclusive (r s : Rule) : Prop :=
  ∀ A h, (∃ fault, r.appropriate A h = .error fault ∧ s.appropriate A h = .error fault) ∨
    ∃ a b, r.appropriate A h = .ok a ∧ s.appropriate A h = .ok b ∧ (a && b) = false

theorem Exclusive.symm (exclusive : Exclusive r s) : Exclusive s r := by
  intro A h
  rcases exclusive A h with ⟨fault, first, second⟩ | ⟨a, b, first, second, apart⟩
  · exact Or.inl ⟨fault, second, first⟩
  · exact Or.inr ⟨b, a, second, first, by rw [Bool.and_comm, apart]⟩

theorem choose_of_fault {fault : Fault} (failed : rule.appropriate A h = .error fault) :
    choose verbosity A h j (rule :: later) = .error fault := by
  rw [choose, failed]
  rfl

theorem choose_of_inappropriate (asked : rule.appropriate A h = .ok false) :
    choose verbosity A h j (rule :: later) = choose verbosity A h j later := by
  rw [choose, asked]
  rfl

theorem choose_cons_congr (tails : ∀ j, choose verbosity A h j later = choose verbosity A h j later') :
    choose verbosity A h j (rule :: later) = choose verbosity A h j (rule :: later') := by
  simp only [choose, tails]

theorem choose_drop_second (asked : s.appropriate A h = .ok false) :
    choose verbosity A h j (r :: s :: later) = choose verbosity A h j (r :: later) :=
  choose_cons_congr fun _ => choose_of_inappropriate asked

theorem choose_swap (exclusive : Exclusive r s) :
    choose verbosity A h j (r :: s :: later) = choose verbosity A h j (s :: r :: later) := by
  rcases exclusive A h with ⟨fault, first, second⟩ | ⟨a, b, first, second, apart⟩
  · rw [choose_of_fault first, choose_of_fault second]
  · cases a with
    | false => rw [choose_of_inappropriate first, choose_drop_second first]
    | true =>
      obtain rfl : b = false := apart
      rw [choose_of_inappropriate second, choose_drop_second second]

theorem choose_perm (perm : rules.Perm rules') (exclusive : rules.Pairwise Exclusive) :
    choose verbosity A h j rules = choose verbosity A h j rules' := by
  induction perm generalizing j with
  | nil => rfl
  | cons rule _ ih => exact choose_cons_congr fun _ => ih exclusive.of_cons
  | swap r s later => exact choose_swap (List.rel_of_pairwise_cons exclusive List.mem_cons_self)
  | trans first _ ih ih' =>
    exact (ih exclusive).trans (ih' (first.pairwise exclusive fun apart => apart.symm))

/-! ### Optimizers that choose alike -/

/-- At every node, both optimizers choose the same replacement and report the same refusals. -/
def ChoosesLike (o o' : Optimizer) : Prop :=
  ∀ variant verbosity A h j,
    choose verbosity A h j (o.rulesFor variant) = choose verbosity A h j (o'.rulesFor variant)

theorem offerTo_eq_of_choosesLike (alike : ChoosesLike o o') (settle : o.settle = o'.settle)
    (verbosity : Verbosity) (steps : Nat) : o.offerTo verbosity steps = o'.offerTo verbosity steps := by
  induction steps with
  | zero => rfl
  | succ steps ih =>
    funext h ⟨A, j⟩
    rw [offerTo_succ, offerTo_succ, ih]
    simp only [offerWith, alike _ verbosity A h j, settle]

theorem runPass_eq_of_choosesLike (alike : ChoosesLike o o') (settle : o.settle = o'.settle)
    (verbosity : Verbosity) (A : Arena) (start : Handle) :
    o.runPass verbosity A start = o'.runPass verbosity A start := by
  have visits : o.visit verbosity A.patience = o'.visit verbosity A.patience := by
    unfold visit
    rw [offerTo_eq_of_choosesLike alike settle]
  unfold runPass runPassTo
  rw [visits]

/-! ### Rules of the library -/

theorem exclusive_of_operand {v w : Variant} (different : v ≠ w)
    (first : ∀ A h, r.appropriate A h = do return (← Rule.operand A h).variant = v)
    (second : ∀ A h, s.appropriate A h = do return (← Rule.operand A h).variant = w) : Exclusive r s := by
  intro A h
  rw [first, second]
  cases Rule.operand A h with
  | error fault => exact Or.inl ⟨fault, rfl, rfl⟩
  | ok shape =>
    refine Or.inr ⟨decide (shape.variant = v), decide (shape.variant = w), rfl, rfl, ?_⟩
    by_cases same : shape.variant = v
    · simp [same, different]
    · simp [same]

theorem pairwise_exclusive_of_ne_binary (other : variant ≠ .binary) :
    (Rule.builtin.filter fun rule => rule.target = variant).Pairwise Exclusive := by
  cases variant with
  | binary => exact absurd rfl other
  | not =>
    have literals : Exclusive Rule.deMorgan Rule.invertLiteral :=
      exclusive_of_operand (show Variant.binary ≠ .literal by decide) (fun _ _ => rfl) (fun _ _ => rfl)
    have negations : Exclusive Rule.deMorgan Rule.doubleNegation :=
      exclusive_of_operand (show Variant.binary ≠ .not by decide) (fun _ _ => rfl) (fun _ _ => rfl)
    have inner : Exclusive Rule.invertLiteral Rule.doubleNegation :=
      exclusive_of_operand (show Variant.literal ≠ .not by decide) (fun _ _ => rfl) (fun _ _ => rfl)
    show [Rule.deMorgan, Rule.invertLiteral, Rule.doubleNegation].Pairwise Exclusive
    simp [literals, negations, inner]
  | parens => exact List.pairwise_singleton _ _
  | root | id | literal => exact List.Pairwise.nil

theorem rulesFor_perm (perm : o.rules.Perm Rule.builtin) (variant : Variant) :
    (o.rulesFor variant).Perm (Rule.builtin.filter fun rule => rule.target = variant) :=
  perm.filter _

/-- The order of the rules for binary nodes settles what is chosen. -/
theorem choosesLike_of_perm (perm : o.rules.Perm Rule.builtin) (perm' : o'.rules.Perm Rule.builtin)
    (same : o.rulesFor .binary = o'.rulesFor .binary) : ChoosesLike o o' := by
  intro variant verbosity A h j
  by_cases binary : variant = .binary
  · rw [binary, same]
  · have first := rulesFor_perm perm variant
    have exclusive := first.symm.pairwise (pairwise_exclusive_of_ne_binary binary) fun apart => apart.symm
    exact choose_perm (first.trans (rulesFor_perm perm' variant).symm) exclusive

theorem rulesFor_binary_of_perm (perm : o.rules.Perm Rule.builtin) :
    o.rulesFor .binary = [Rule.literalOperand, Rule.chainReduction] ∨
      o.rulesFor .binary = [Rule.chainReduction, Rule.literalOperand] :=
  List.perm_pair.mp (rulesFor_perm perm .binary)

theorem rulesFor_binary_iff (perm : o.rules.Perm Rule.builtin) :
    o.rulesFor .binary = [Rule.literalOperand, Rule.chainReduction] ↔
      [Rule.literalOperand, Rule.chainReduction].Sublist o.rules := by
  constructor
  · intro same
    rw [← same]
    exact List.filter_sublist
  · intro order
    have kept := order.filter fun rule => rule.target = .binary
    have length := (rulesFor_perm perm .binary).length_eq
    exact (kept.eq_of_length length.symm).symm

/-! ### Both orders of the rules for binary nodes -/

/-- The rules of the library, but with chains reduced before literals are folded. -/
def reducingChains : Optimizer where
  rules := [Rule.deMorgan, Rule.invertLiteral, Rule.doubleNegation, Rule.chainReduction, Rule.literalOperand,
    Rule.dropParens]

def reducingLaws : List Law :=
  [Law.deMorgan, Law.invertLiteral, Law.doubleNegation, Law.chainReduction, Law.literalOperand, Law.dropParens]

theorem reducingChains_perm : reducingChains.rules.Perm Rule.builtin :=
  (List.Perm.swap Rule.literalOperand Rule.chainReduction [Rule.dropParens]).append_left
    [Rule.deMorgan, Rule.invertLiteral, Rule.doubleNegation]

theorem reducingChains_follow : List.Forall₂ Rule.Follows reducingChains.rules reducingLaws := by
  have follow := Rule.builtin_follow
  simp only [Rule.builtin, Law.builtin, List.forall₂_cons] at follow
  obtain ⟨first, second, third, fourth, fifth, last⟩ := follow
  exact .cons first (.cons second (.cons third (.cons fifth (.cons fourth (.cons last.1 .nil)))))

/-- `x AND x AND FALSE`, a chain with both a repetition and a literal. -/
def collapsing : Formula := .binary .and (.binary .and (.id "x") (.id "x")) (.literal false)

/-- With literals first, the chain collapses at once, and otherwise in two steps. -/
theorem pass_collapsing (steps : Nat) :
    collapsing.pass Law.builtin true (steps + 3) none = some (.literal false, 1) ∧
      collapsing.pass reducingLaws true (steps + 3) none = some (.literal false, 2) :=
  ⟨rfl, rfl⟩

theorem exists_patience (A : Arena) : ∃ steps, A.patience = steps + 3 := by
  have split : A.patience = 2 ^ A.live * 2 ^ 20 := Nat.pow_add 2 A.live 20
  have positive : 0 < 2 ^ A.live := Nat.two_pow_pos _
  exact ⟨A.patience - 3, by omega⟩

theorem exists_runs_differ : ∃ A root B C j k, A.WellFormed ∧ A.isLive root = .ok true ∧
    ({} : Optimizer).runPass .silent A root = .ok (B, j) ∧
    reducingChains.runPass .silent A root = .ok (C, k) ∧ j.replacements = 1 ∧ k.replacements = 2 := by
  have read : Formula.read "x AND x AND FALSE" = .ok collapsing := by decide +kernel
  obtain ⟨⟨root, t⟩, A, -, formula, represents, -⟩ := Arena.represents_empty.enter_ok read
  have placed : A.Represents ((Place.top [] root []).fill t) := represents
  obtain ⟨steps, enough⟩ := exists_patience A
  obtain ⟨folded, reduced⟩ := pass_collapsing steps
  obtain ⟨B, j, s, ran, -, passed, -⟩ :=
    runPass_root (o := {}) Rule.builtin_follow (fun _ member => member) placed .silent
  have swapped : reducingLaws.Perm Law.builtin :=
    (List.Perm.swap Law.literalOperand Law.chainReduction [Law.dropParens]).append_left
      [Law.deMorgan, Law.invertLiteral, Law.doubleNegation]
  obtain ⟨C, k, u, ran', -, passed', -⟩ :=
    runPass_root reducingChains_follow (fun _ member => swapped.subset member) placed .silent
  rw [show t.formula = collapsing from formula, enough] at passed passed'
  refine ⟨A, root, B, C, j, k, represents.wellFormed, Arena.isLive_of_cell? placed.holder, ran, ran', ?_, ?_⟩
  · exact (Prod.mk.inj (Option.some.inj (passed.symm.trans folded))).2
  · exact (Prod.mk.inj (Option.some.inj (passed'.symm.trans reduced))).2

/-- With the same settings, a pass with one list of rules and a pass with the other end in the same arena,
down to the order of its vacant cells, with the same count and the same reports. -/
def Interchangeable (rules rules' : List Rule) : Prop :=
  ∀ (settle : Bool) (maxPasses : Nat) (verbosity : Verbosity) (A : Arena) (start : Handle), A.WellFormed →
    A.isLive start = .ok true →
    ∃ B j, ({ rules, settle, maxPasses } : Optimizer).runPass verbosity A start = .ok (B, j) ∧
      ({ rules := rules', settle, maxPasses } : Optimizer).runPass verbosity A start = .ok (B, j)

theorem interchangeable_of_sublist (perm : rules.Perm Rule.builtin)
    (order : [Rule.literalOperand, Rule.chainReduction].Sublist rules) : Interchangeable rules Rule.builtin := by
  intro settle maxPasses verbosity A start wellFormed live
  have alike : ChoosesLike { rules, settle, maxPasses } { rules := Rule.builtin, settle, maxPasses } :=
    choosesLike_of_perm perm (List.Perm.refl _) ((rulesFor_binary_iff (o := { rules }) perm).mpr order)
  obtain ⟨trees, represents⟩ := wellFormed.exists_represents
  obtain ⟨C, t, rfl, covers⟩ := exists_covers represents live
  obtain ⟨g, n, -, B, j, s, ran, -⟩ := runPass_reaches (o := { rules := Rule.builtin, settle, maxPasses })
    Rule.builtin_follow (fun _ member => member) represents covers verbosity
  exact ⟨B, j, (runPass_eq_of_choosesLike alike rfl verbosity A start).trans ran, ran⟩

/-- The rules of the library may be put into another order if and only if literals are still folded before
chains are reduced. -/
theorem interchangeable_builtin_iff (perm : rules.Perm Rule.builtin) :
    Interchangeable rules Rule.builtin ↔ [Rule.literalOperand, Rule.chainReduction].Sublist rules := by
  refine ⟨fun interchangeable => ?_, interchangeable_of_sublist perm⟩
  rcases rulesFor_binary_of_perm (o := { rules }) perm with folding | reducing
  · exact (rulesFor_binary_iff (o := { rules }) perm).mp folding
  · -- In the other order the list chooses like `reducingChains`, which counts one replacement more.
    obtain ⟨A, root, B, C, j, k, wellFormed, live, ran, ran', once, twice⟩ := exists_runs_differ
    obtain ⟨D, i, first, second⟩ := interchangeable true 16 .silent A root wellFormed live
    have alike : ChoosesLike { rules } reducingChains := choosesLike_of_perm perm reducingChains_perm reducing
    rw [runPass_eq_of_choosesLike alike rfl, ran'] at first
    rw [ran] at second
    obtain ⟨-, rfl⟩ := Prod.mk.inj (Except.ok.inj first)
    obtain ⟨-, rfl⟩ := Prod.mk.inj (Except.ok.inj second)
    omega

theorem interchangeable_builtin_iff_turned :
    Interchangeable [Rule.dropParens, Rule.literalOperand, Rule.chainReduction, Rule.doubleNegation,
        Rule.invertLiteral, Rule.deMorgan] Rule.builtin ∧
      ¬ Interchangeable reducingChains.rules Rule.builtin := by
  have turned : ([Rule.literalOperand, Rule.chainReduction] ++
      [Rule.deMorgan, Rule.invertLiteral, Rule.doubleNegation].reverse).Perm
      ([Rule.deMorgan, Rule.invertLiteral, Rule.doubleNegation] ++ [Rule.literalOperand, Rule.chainReduction]) :=
    List.perm_append_comm.trans ((List.reverse_perm _).append_right _)
  constructor
  · refine (interchangeable_builtin_iff ?_).mpr ?_
    · exact (List.perm_append_singleton Rule.dropParens _).symm.trans (turned.append_right [Rule.dropParens])
    · exact .cons _ (.cons_cons _ (.cons_cons _ (List.nil_sublist _)))
  · intro interchangeable
    have order := (interchangeable_builtin_iff reducingChains_perm).mp interchangeable
    exact absurd (order.map Rule.name) (by decide)

end Optimizer

end Propositional
