import Propositional.Proofs.Rule.Following

/-!
# The rule for chains follows its law

The index of operands finds an operand if and only if an equal formula was put into it, whatever the
digest: equal formulas have equal fingerprints, and what shares a digest is compared. So the rule keeps
the first occurrences of the operands and finds the complements among them that the law finds.
-/

namespace Propositional

/-- The term can be read in the arena. -/
def Arena.Reads (A : Arena) (t : Term) : Prop := (∃ p, A.Holds p t) ∧ t.size < A.bound

theorem Arena.Reads.subterm {A : Arena} {t s : Term} (reads : A.Reads t)
    (inside : ∀ p, ∃ q, (q, s) ∈ t.subterms p) : A.Reads s := by
  obtain ⟨⟨p, holds⟩, small⟩ := reads
  obtain ⟨q, below⟩ := inside p
  exact ⟨⟨q, holds.subterm below⟩, Nat.lt_of_le_of_lt (Term.size_le_of_mem_subterms below) small⟩

namespace Rule

variable {κ : Type} [DecidableEq κ] (digest : List Arena.Mark → κ) {A : Arena} {C : Place} {t : Term}
  {us ts : List Term}

/-- How a term is entered into an index. -/
def indexed (t : Term) : κ × Handle :=
  (digest (Arena.formulaMarks t.formula), t.handle)

/-- Adds a term in front unless one with an equal formula is there. -/
def addDistinct (us : List Term) (t : Term) : List Term :=
  if t.formula ∈ us.map Term.formula then us else t :: us

/-- The terms with different formulas, the latest first. -/
def distinct (ts : List Term) : List Term := ts.foldl addDistinct []

theorem distinct_append_singleton (ts : List Term) (t : Term) :
    distinct (ts ++ [t]) = addDistinct (distinct ts) t := by
  simp [distinct]

theorem map_formula_distinct (ts : List Term) :
    (distinct ts).reverse.map Term.formula = (ts.map Term.formula).eraseDups := by
  induction ts using List.reverseRecOn with
  | nil => rfl
  | append_singleton ts t ih =>
    have known : t.formula ∈ (distinct ts).map Term.formula ↔ t.formula ∈ ts.map Term.formula := by
      rw [← List.mem_eraseDups (l := ts.map Term.formula), ← ih, List.map_reverse, List.mem_reverse]
    rw [distinct_append_singleton, addDistinct, List.map_append, List.map_singleton,
      eraseDups_append_singleton]
    by_cases there : t.formula ∈ (distinct ts).map Term.formula
    · rw [if_pos there, if_pos (known.mp there), ih]
    · rw [if_neg there, if_neg (mt known.mpr there), List.reverse_cons, List.map_append, ih,
        List.map_singleton]

theorem distinct_sublist (ts : List Term) : (distinct ts).reverse.Sublist ts := by
  induction ts using List.reverseRecOn with
  | nil => exact List.Sublist.slnil
  | append_singleton ts t ih =>
    rw [distinct_append_singleton, addDistinct]
    split
    · exact ih.trans (List.sublist_append_left _ _)
    · rw [List.reverse_cons]
      exact ih.append (List.Sublist.refl _)

/-! ### The index -/

theorem find_indexed (reads : A.Reads t) (others : ∀ u ∈ us, A.Reads u) :
    OperandIndex.find A (digest (Arena.formulaMarks t.formula)) t.handle (us.map (indexed digest)) =
      .ok (decide (t.formula ∈ us.map Term.formula)) := by
  obtain ⟨⟨p, holds⟩, -⟩ := reads
  induction us with
  | nil => rfl
  | cons u later ih =>
    obtain ⟨⟨q, held⟩, small⟩ := others u List.mem_cons_self
    have rest := ih (fun v member => others v (List.mem_cons_of_mem _ member))
    rw [List.map_cons, indexed, OperandIndex.find, Arena.structuralEq_term held holds small, rest]
    by_cases same : u.formula = t.formula
    · simp [same, bind, Except.bind, pure, Except.pure]
    · -- Formulas that share a digest are still told apart.
      by_cases clash : digest (Arena.formulaMarks u.formula) = digest (Arena.formulaMarks t.formula) <;>
        simp [clash, same, Ne.symm same, bind, Except.bind]

theorem ofList_indexed (reads : ∀ t ∈ ts, A.Reads t) :
    OperandIndex.ofList A digest (ts.map Term.handle) = .ok ((distinct ts).map (indexed digest)) := by
  induction ts using List.reverseRecOn with
  | nil => rfl
  | append_singleton ts t ih =>
    have known : ∀ u ∈ distinct ts, A.Reads u := by
      intro u member
      refine reads u (List.mem_append_left _ ((distinct_sublist ts).subset ?_))
      exact List.mem_reverse.mpr member
    have last := reads t (List.mem_append_right _ List.mem_cons_self)
    obtain ⟨⟨p, holds⟩, small⟩ := last
    have before := ih (fun u member => reads u (List.mem_append_left _ member))
    rw [OperandIndex.ofList] at before ⊢
    rw [List.map_append, List.foldlM_append, before, List.map_singleton, distinct_append_singleton]
    simp only [bind, Except.bind, List.foldlM_cons, List.foldlM_nil, OperandIndex.insert,
      Arena.fingerprint_term holds small, find_indexed digest ⟨⟨p, holds⟩, small⟩ known, addDistinct]
    by_cases there : t.formula ∈ (distinct ts).map Term.formula <;>
      simp [there, indexed, pure, Except.pure]

theorem mem_distinct (ts : List Term) (f : Formula) :
    f ∈ (distinct ts).map Term.formula ↔ f ∈ ts.map Term.formula := by
  rw [← List.mem_eraseDups (l := ts.map Term.formula), ← map_formula_distinct, List.map_reverse,
    List.mem_reverse]

theorem contains_complement (reads : A.Reads t) (others : ∀ u ∈ us, A.Reads u) :
    (do match ← A.shape t.handle with
        | .not inner => OperandIndex.contains A digest (us.map (indexed digest)) (← A.peel inner)
        | _ => return false : Checked Bool) =
      .ok (Law.negates (us.map Term.formula) t.formula) := by
  obtain ⟨⟨p, holds⟩, small⟩ := reads
  rw [holds.shape]
  cases t with
  | not h s =>
    have below := holds.child (c := s) (by simp [Term.children])
    have smaller : s.size < (Term.not h s).size := Term.size_le_of_mem_children (by simp [Term.children])
    have peeled : A.Reads s.peel := Arena.Reads.subterm ⟨⟨_, below⟩, by omega⟩ (fun p => s.peel_mem_subterms p)
    simp only [Term.shape, Term.formula, Law.negates, bind, Except.bind, Arena.peel_term below (by omega),
      OperandIndex.contains]
    obtain ⟨⟨q, held⟩, fits⟩ := peeled
    rw [Arena.fingerprint_term held fits, List.contains_eq_mem, ← s.formula_peel]
    exact find_indexed digest ⟨⟨q, held⟩, fits⟩ others
  | _ => rfl

theorem anyM_complement (reads : ∀ t ∈ ts, A.Reads t) (others : ∀ u ∈ us, A.Reads u) :
    (ts.map Term.handle).anyM (fun h => (do
      match ← A.shape h with
      | .not inner => OperandIndex.contains A digest (us.map (indexed digest)) (← A.peel inner)
      | _ => return false : Checked Bool)) =
      .ok ((ts.map Term.formula).any (Law.negates (us.map Term.formula))) := by
  induction ts with
  | nil => rfl
  | cons t later ih =>
    have first := contains_complement digest (reads t List.mem_cons_self) others
    have rest := ih (fun u member => reads u (List.mem_cons_of_mem _ member))
    rw [List.map_cons, List.anyM, first, rest, List.map_cons, List.any_cons]
    simp only [bind, Except.bind]
    split <;> simp_all [pure, Except.pure]

theorem hasComplementsBy_terms (reads : ∀ t ∈ ts, A.Reads t) :
    hasComplementsBy digest A (ts.map Term.handle) = .ok (Law.complementary (ts.map Term.formula)) := by
  have known : ∀ u ∈ distinct ts, A.Reads u :=
    fun u member => reads u ((distinct_sublist ts).subset (List.mem_reverse.mpr member))
  have searched := anyM_complement digest reads known
  rw [hasComplementsBy, ofList_indexed digest reads]
  refine searched.trans ?_
  have same : Law.negates ((distinct ts).map Term.formula) = Law.negates (ts.map Term.formula) := by
    funext f
    cases f with
    | not g => simp only [Law.negates, List.contains_eq_mem, mem_distinct]
    | _ => rfl
  rw [same, Law.complementary]

/-! ### The rule -/

theorem leftChain?_existing (op : Connective) (nonempty : us ≠ []) :
    Candidate.leftChain? op ((us.map Term.handle).map .existing) = some (Draft.chain op us).candidate := by
  induction us using List.reverseRecOn with
  | nil => exact absurd rfl nonempty
  | append_singleton us u ih =>
    cases us with
    | nil => rfl
    | cons first later =>
      have before := ih (by simp)
      rw [Draft.chain_append_singleton (by simp), Draft.candidate, ← Option.some.inj before]
      simp [Candidate.leftChain?, Draft.candidate]

/-- What is left of the operands of a chain. -/
def reducedTerm (op : Connective) (operands : List Term) : Draft Term :=
  if Law.complementary ((distinct operands).reverse.map Term.formula) then .literal op.absorbing
  else .chain op (distinct operands).reverse

theorem map_reducedTerm (op : Connective) (operands : List Term) :
    (reducedTerm op operands).map Term.formula = Law.reduced op (operands.map Term.formula) := by
  rw [reducedTerm, Law.reduced, ← map_formula_distinct]
  split
  · rfl
  · exact Draft.map_chain _ _ _

theorem parts_reducedTerm_sublist (op : Connective) (operands : List Term) :
    (reducedTerm op operands).parts.Sublist operands := by
  unfold reducedTerm
  split
  · exact List.nil_sublist _
  · rw [Draft.parts_chain]
    exact distinct_sublist operands

theorem reducedChainBy_term {h : Handle} {op : Connective} {left right : Term}
    (reads : A.Reads (.binary h op left right)) :
    reducedChainBy digest A h =
      .ok (reducedTerm op ((Term.binary h op left right).operands op)).candidate := by
  have operands : ∀ u ∈ (Term.binary h op left right).operands op, A.Reads u :=
    fun u member => reads.subterm fun p => Term.operand_mem_subterms p member
  obtain ⟨⟨p, holds⟩, small⟩ := reads
  have shape : A.shape h = .ok (.binary op left.handle right.handle) := holds.shape
  have listed : A.chainOperands h op = .ok _ := Arena.chainOperands_term op holds small
  have distinctRead := ofList_indexed digest operands
  have handles : ∀ us : List Term, (us.map (indexed digest)).reverse.map Prod.snd = us.reverse.map Term.handle := by
    intro us
    rw [← List.map_reverse, List.map_map]
    rfl
  have complements := hasComplementsBy_terms digest
    (fun u member => operands u ((distinct_sublist _).subset member))
  have some_left : (distinct ((Term.binary h op left right).operands op)).reverse ≠ [] := by
    intro none_left
    have erased := map_formula_distinct ((Term.binary h op left right).operands op)
    rw [none_left, Term.map_formula_operands] at erased
    exact eraseDups_ne_nil (Formula.operands_ne_nil op _) erased.symm
  simp only [reducedChainBy, distinctOperandsBy, shape, listed, distinctRead, handles, complements,
    leftChain?_existing op some_left, bind, Except.bind, pure, Except.pure, reducedTerm]
  split <;> rfl

theorem reducedTerm_within (nodup : t.handles.Nodup) (op : Connective) :
    (reducedTerm op (t.operands op)).Within t := by
  have sublist := parts_reducedTerm_sublist op (t.operands op)
  refine ⟨fun p u member => Term.operand_mem_subterms p (sublist.subset member), ?_⟩
  exact nodup.sublist ((sublist.flatMap _).trans (Term.operands_sublist op t))

theorem chainReduction_follows : Follows chainReduction Law.chainReduction where
  target drafted := by
    obtain ⟨op, left, right, rfl, -⟩ := Law.chainReduction_eq_some drafted
    rfl
  answers := by
    intro A C t represents variant
    cases t with
    | binary h op left right =>
      let d := reducedTerm op ((Term.binary h op left right).operands op)
      have holds := represents.holds
      have reads : A.Reads (.binary h op left right) := ⟨⟨_, holds⟩, represents.size_lt_bound⟩
      have shape : A.shape h = .ok (.binary op left.handle right.handle) := holds.shape
      have heads : A.headsChain h op = .ok (decide (C.above ≠ some op)) := represents.headsChain op
      have within : d.Within (.binary h op left right) := reducedTerm_within represents.nodup op
      have proposed : chainReduction.propose A h = .ok d.candidate := reducedChainBy_term _ reads
      have formula : d.map Term.formula =
          Law.reduced op ((Term.binary h op left right).formula.operands op) := by
        rw [map_reducedTerm, Term.map_formula_operands]
      have reproduced : A.reproduces h d.candidate = .ok (decide _) :=
        Arena.reproduces_term holds reads.2 fun s member =>
          ⟨_, holds.subterm (within.inside _ s member).choose_spec⟩
      have asked : chainReduction.appropriate A h = .ok (decide (C.above ≠ some op)) := by
        simp [chainReduction, shape, heads, bind, Except.bind]
      have accepted : chainReduction.accept A h d.candidate =
          .ok (!decide ((Term.binary h op left right).formula = (d.map Term.formula).formula)) := by
        simp [chainReduction, reproduced, bind, Except.bind, pure, Except.pure]
      by_cases inner : C.above = some op
      · refine Or.inl ⟨?_, Or.inl (asked.trans (by simp [inner]))⟩
        simp [Term.formula, Law.chainReduction, inner]
      · by_cases same : (Term.binary h op left right).formula = (d.map Term.formula).formula
        · refine Or.inl ⟨?_, Or.inr ⟨d.candidate, asked.trans (by simp [inner]), proposed, ?_⟩⟩
          · rw [formula] at same
            exact if_pos (Or.inr same.symm)
          · exact accepted.trans (by simp [same])
        · refine Or.inr ⟨d, ?_, within, ?_, asked.trans (by simp [inner]), proposed, ?_⟩
          · rw [formula] at same ⊢
            exact if_neg (not_or.mpr ⟨inner, fun equal => same equal.symm⟩)
          · intro moved
            exact same (by rw [moved]; rfl)
          · exact accepted.trans (by simp [same])
    | _ => simp [Term.formula, Formula.variant, chainReduction] at variant

/-- The rules of the library follow the laws, each its own. -/
theorem builtin_follow : List.Forall₂ Follows builtin Law.builtin :=
  .cons deMorgan_follows (.cons invertLiteral_follows (.cons doubleNegation_follows
    (.cons literalOperand_follows (.cons chainReduction_follows (.cons dropParens_follows .nil)))))

end Rule

end Propositional
