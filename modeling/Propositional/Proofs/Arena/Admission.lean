import Propositional.Proofs.Arena.Intact
import Propositional.Proofs.Rule.Following

/-!
# Candidates for a place

An arena admits a candidate for a node if the candidate is not the node itself and refers to different
nodes, all in the subtree of the node and none in the subtree of another. These are the candidates that
can take the place of the node: they are the drafts whose parts are inside its term and apart.
-/

namespace Propositional

/-- The value under an assignment, where the nodes that the candidate refers to have their values in an
arena. -/
def Candidate.eval (A : Arena) (assignment : String → Bool) : Candidate → Checked Bool
  | existing h => A.eval assignment h
  | binary op left right => return op.apply (← left.eval A assignment) (← right.eval A assignment)
  | not operand => return !(← operand.eval A assignment)
  | parens inner => inner.eval A assignment
  | id name => return assignment name
  | literal value => return value

namespace Term

variable {t s u : Term} {p q r : Option Handle}

theorem mem_subterms_of_mem (inside : (q, s) ∈ t.subterms p) (above : Option Handle) :
    ∃ q', (q', s) ∈ t.subterms above := by
  rw [subterms_eq, List.mem_cons] at inside
  rcases inside with same | below
  · obtain ⟨-, rfl⟩ := Prod.mk.inj same
    exact ⟨above, self_mem_subterms above s⟩
  · refine ⟨q, ?_⟩
    rw [subterms_eq]
    exact List.mem_cons_of_mem _ below

/-- Of two terms inside a term that share a node, one is inside the other. -/
theorem nested_of_shared_handle (nodup : t.handles.Nodup) (first : (q, s) ∈ t.subterms p)
    (second : (r, u) ∈ t.subterms p) {h : Handle} (left : h ∈ s.handles) (right : h ∈ u.handles) :
    u.handle ∈ s.handles ∨ s.handle ∈ u.handles := by
  induction t using byChildren generalizing p with
  | step t ih =>
    have top : ∀ {q s}, (q, s) ∈ t.subterms p → s.handle ∈ t.handles :=
      fun inside => handles_subset_of_mem_subterms inside (handle_mem_handles _)
    have insideFirst := top first
    have insideSecond := top second
    rw [subterms_eq, List.mem_cons] at first second
    rcases first with same | first
    · obtain ⟨-, rfl⟩ := Prod.mk.inj same
      exact Or.inl insideSecond
    rcases second with same | second
    · obtain ⟨-, rfl⟩ := Prod.mk.inj same
      exact Or.inr insideFirst
    -- Both are below a child, and children share no node.
    obtain ⟨c, child, below⟩ := List.mem_flatMap.mp first
    obtain ⟨c', child', below'⟩ := List.mem_flatMap.mp second
    rw [handles_eq, List.nodup_cons] at nodup
    obtain rfl : c = c' := eq_of_shared_handle nodup.2 child child'
      (handles_subset_of_mem_subterms below left) (handles_subset_of_mem_subterms below' right)
    exact ih c child ((List.nodup_flatMap.mp nodup.2).1 c child) below below'

end Term

/-- The candidate as a draft, with terms for the nodes that it refers to. -/
def Candidate.draft (find : Handle → Term) : Candidate → Draft Term
  | existing h => .moved (find h)
  | binary op left right => .binary op (left.draft find) (right.draft find)
  | not operand => .not (operand.draft find)
  | parens inner => .parens (inner.draft find)
  | id name => .id name
  | literal value => .literal value

theorem Candidate.parts_draft (find : Handle → Term) (c : Candidate) :
    (c.draft find).parts = c.moved.map find := by
  induction c <;> simp_all [draft, moved, Draft.parts]

theorem Candidate.candidate_draft {find : Handle → Term} {c : Candidate}
    (finds : ∀ m ∈ c.moved, (find m).handle = m) : (c.draft find).candidate = c := by
  induction c with
  | existing h => exact congrArg existing (finds h List.mem_cons_self)
  | binary op left right ihl ihr =>
    have first := ihl fun m member => finds m (List.mem_append_left _ member)
    have second := ihr fun m member => finds m (List.mem_append_right _ member)
    rw [draft, Draft.candidate, first, second]
  | not operand ih | parens inner ih => rw [draft, Draft.candidate, ih finds]
  | id name | literal value => rfl

theorem Draft.moved_candidate (d : Draft Term) : d.candidate.moved = d.parts.map Term.handle := by
  induction d <;> simp_all [candidate, parts, Candidate.moved]

namespace Arena

variable {A : Arena} {C : Place} {t : Term} {c : Candidate} {d : Draft Term}

/-- The candidate may take the place of the node. -/
structure Admits (A : Arena) (h : Handle) (c : Candidate) : Prop where
  changes : c ≠ .existing h
  distinct : c.moved.Nodup
  inside : ∀ m ∈ c.moved, ∃ below, A.descendants h = .ok below ∧ m ∈ below
  apart : ∀ m ∈ c.moved, ∀ k ∈ c.moved, ∀ below, A.descendants m = .ok below → k ∈ below → k = m

theorem Holds.eval {p : Option Handle} (holds : A.Holds p t) (small : t.size < A.bound) (σ : String → Bool) :
    A.eval σ t.handle = .ok (t.formula.eval σ) := by
  rw [Arena.eval, fold_term_formula (evalShape σ) holds small, Formula.fold_evalShape]

namespace Represents

theorem holds_inside {p q : Option Handle} {s : Term} (represents : A.Represents (C.fill t))
    (inside : (q, s) ∈ t.subterms p) : ∃ q', A.Holds q' s ∧ s.size < A.bound := by
  obtain ⟨q', inside⟩ := Term.mem_subterms_of_mem inside (some C.parent)
  have smaller := Term.size_le_of_mem_subterms inside
  have small := represents.size_lt_bound
  exact ⟨q', represents.holds.subterm inside, by omega⟩

theorem eval_candidate (represents : A.Represents (C.fill t)) (within : d.Within t) (σ : String → Bool) :
    d.candidate.eval A σ = .ok ((d.map Term.formula).formula.eval σ) := by
  have parts : ∀ s ∈ d.parts, A.eval σ s.handle = .ok (s.formula.eval σ) := by
    intro s member
    obtain ⟨q, inside⟩ := within.inside none s member
    obtain ⟨q', holds, small⟩ := represents.holds_inside inside
    exact holds.eval small σ
  clear within
  induction d with
  | moved s => exact parts s List.mem_cons_self
  | binary op left right ihl ihr =>
    have first := ihl fun s member => parts s (List.mem_append_left _ member)
    have second := ihr fun s member => parts s (List.mem_append_right _ member)
    rw [Draft.candidate, Candidate.eval, first, second]
    rfl
  | not operand ih =>
    rw [Draft.candidate, Candidate.eval, ih parts]
    rfl
  | parens inner ih => exact ih parts
  | id name | literal value => rfl

theorem exists_draft (represents : A.Represents (C.fill t)) (admits : A.Admits t.handle c) :
    ∃ d : Draft Term, d.candidate = c ∧ d.Within t ∧ d ≠ .moved t := by
  have subtree := represents.holds.descendants represents.size_lt_bound
  have found : ∀ m ∈ c.moved, ∃ s : Term, s.handle = m ∧ ∃ q, (q, s) ∈ t.subterms none := by
    intro m member
    obtain ⟨below, read, inside⟩ := admits.inside m member
    obtain rfl := Except.ok.inj (subtree.symm.trans read)
    obtain ⟨q, s, inside, same⟩ := Term.exists_subterm_of_mem_handles none inside
    exact ⟨s, same, q, inside⟩
  have : Nonempty Term := ⟨t⟩
  choose! find handle inside using found
  have parts := c.parts_draft find
  refine ⟨c.draft find, Candidate.candidate_draft handle, ⟨fun p s member => ?_, ?_⟩, fun same => ?_⟩
  · rw [parts] at member
    obtain ⟨m, moved, rfl⟩ := List.mem_map.mp member
    obtain ⟨q, below⟩ := inside m moved
    exact Term.mem_subterms_of_mem below p
  · rw [parts, List.flatMap_map, List.nodup_flatMap]
    refine ⟨fun m member => ?_, admits.distinct.imp_of_mem fun {m k} first second different x left right => ?_⟩
    · obtain ⟨q, below⟩ := inside m member
      exact represents.nodup.sublist (Term.handles_sublist_of_mem_subterms below)
    · -- A shared node would make one of the two nodes a descendant of the other.
      obtain ⟨q, below⟩ := inside m first
      obtain ⟨r, below'⟩ := inside k second
      obtain ⟨q', holds, small⟩ := represents.holds_inside below
      obtain ⟨r', holds', small'⟩ := represents.holds_inside below'
      have listed := holds.descendants small
      have listed' := holds'.descendants small'
      rw [handle m first] at listed
      rw [handle k second] at listed'
      rcases Term.nested_of_shared_handle represents.nodup below below' left right with nested | nested
      · rw [handle k second] at nested
        exact different (admits.apart m first k second _ listed nested).symm
      · rw [handle m first] at nested
        exact different (admits.apart k second m first _ listed' nested)
  · refine admits.changes ?_
    exact (Candidate.candidate_draft handle).symm.trans (congrArg Draft.candidate same)

theorem admits_draft (represents : A.Represents (C.fill t)) (within : d.Within t) (changes : d ≠ .moved t) :
    A.Admits t.handle d.candidate where
  changes same := by
    cases d with
    | moved s =>
      obtain ⟨q, inside⟩ := within.inside none s List.mem_cons_self
      obtain ⟨-, rfl⟩ := Term.subterm_unique represents.nodup inside (t.self_mem_subterms none)
        (Candidate.existing.inj same)
      exact changes rfl
    | _ => simp [Draft.candidate] at same
  distinct := by
    rw [d.moved_candidate]
    exact within.nodup_parts
  inside m member := by
    rw [d.moved_candidate] at member
    obtain ⟨s, part, rfl⟩ := List.mem_map.mp member
    obtain ⟨q, inside⟩ := within.inside none s part
    exact ⟨t.handles, represents.holds.descendants represents.size_lt_bound,
      Term.handles_subset_of_mem_subterms inside s.handle_mem_handles⟩
  apart m first k second below listed nested := by
    rw [d.moved_candidate] at first second
    obtain ⟨s, part, rfl⟩ := List.mem_map.mp first
    obtain ⟨u, part', rfl⟩ := List.mem_map.mp second
    obtain ⟨q, inside⟩ := within.inside none s part
    obtain ⟨q', holds, small⟩ := represents.holds_inside inside
    obtain rfl := Except.ok.inj ((holds.descendants small).symm.trans listed)
    rw [Term.eq_of_shared_handle within.apart part part' nested u.handle_mem_handles]

end Represents

end Arena

end Propositional
