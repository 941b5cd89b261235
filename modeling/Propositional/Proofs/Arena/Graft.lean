import Propositional.Arena.Splice
import Propositional.Proofs.Arena.Reading

/-!
# Adding and giving up nodes

Grafting a draft turns the cells of its parts into the cells of the term that it builds, and touches
no others. Releasing a term gives up its cells down to the parts that were moved away, which it knows
by the parents that they name.
-/

namespace Propositional

/-- The draft becomes the term when its new nodes get these handles, children first. -/
inductive Draft.Builds : Draft Term → List Handle → Term → Prop
  | moved (t : Term) : Builds (.moved t) [] t
  | binary {left right : Draft Term} {freshLeft freshRight : List Handle} {l r : Term} (op : Connective)
      (h : Handle) (first : Builds left freshLeft l) (second : Builds right freshRight r) :
      Builds (.binary op left right) (freshLeft ++ freshRight ++ [h]) (.binary h op l r)
  | not {d : Draft Term} {fresh : List Handle} {t : Term} (h : Handle) (below : Builds d fresh t) :
      Builds (.not d) (fresh ++ [h]) (.not h t)
  | parens {d : Draft Term} {fresh : List Handle} {t : Term} (h : Handle) (below : Builds d fresh t) :
      Builds (.parens d) (fresh ++ [h]) (.parens h t)
  | id (h : Handle) (name : String) : Builds (.id name) [h] (.id h name)
  | literal (h : Handle) (value : Bool) : Builds (.literal value) [h] (.literal h value)

namespace Draft.Builds

variable {d : Draft Term} {fresh : List Handle} {t s : Term}

theorem formula (builds : d.Builds fresh t) : t.formula = (d.map Term.formula).formula := by
  induction builds <;> simp_all [Term.formula, Draft.map, Draft.formula]

theorem handles_perm (builds : d.Builds fresh t) :
    t.handles.Perm (fresh ++ d.parts.flatMap Term.handles) := by
  induction builds with
  | moved t => simp [Draft.parts]
  | binary op h first second ihl ihr =>
    rw [List.perm_iff_count] at ihl ihr ⊢
    intro x
    have leftCount := ihl x
    have rightCount := ihr x
    simp only [Term.handles, Draft.parts, List.flatMap_append, List.count_append, List.count_cons,
      List.count_nil] at leftCount rightCount ⊢
    omega
  | not h below ih | parens h below ih =>
    rw [List.perm_iff_count] at ih ⊢
    intro x
    have count := ih x
    simp only [Term.handles, Draft.parts, List.count_append, List.count_cons, List.count_nil] at count ⊢
    omega
  | id h name | literal h value => simp [Term.handles, Draft.parts]

theorem top_mem_fresh (builds : d.Builds fresh t) (new : d.isMoved = false) : t.handle ∈ fresh := by
  cases builds <;> simp_all [Draft.isMoved, Term.handle]

theorem of_moved (builds : (Draft.moved s).Builds fresh t) : fresh = [] ∧ t = s := by
  cases builds
  exact ⟨rfl, rfl⟩

end Draft.Builds

/-- The cells of a list of terms, each below its parent. -/
def entryCells (entries : List (Option Handle × Term)) : List Cell :=
  entries.flatMap fun e => e.2.cells e.1

theorem map_fst_entryCells (entries : List (Option Handle × Term)) :
    (entryCells entries).map Prod.fst = (entries.map Prod.snd).flatMap Term.handles := by
  induction entries with
  | nil => rfl
  | cons e later ih =>
    rw [entryCells, List.flatMap_cons, List.map_append, Term.map_fst_cells, List.map_cons, List.flatMap_cons]
    exact congrArg _ ih

namespace Arena

variable {A : Arena} {d : Draft Term} {rest : List Cell} {entries : List (Option Handle × Term)}

/-! ### Grafting -/

theorem tops_ne {p q : Option Handle} {l r : Term} (owns : A.Owns (entryCells [(p, l), (q, r)] ++ rest)) :
    l.handle ≠ r.handle := by
  have nodup := owns.nodup
  rw [List.map_append, map_fst_entryCells] at nodup
  have disjoint := List.disjoint_of_nodup_append (by simpa using nodup.of_append_left)
  intro same
  exact disjoint l.handle_mem_handles (same ▸ r.handle_mem_handles)

theorem graft_ok (parts : entries.map Prod.snd = d.parts) (owns : A.Owns (entryCells entries ++ rest)) :
    ∃ t fresh p B, A.graft d.candidate = .ok (t.handle, fresh, B) ∧ d.Builds fresh t ∧
      B.Owns (t.cells p ++ rest) ∧ B.roots = A.roots ∧ (d.isMoved = false → p = none) := by
  induction d generalizing A rest entries with
  | moved t =>
    obtain ⟨⟨p, s⟩, rfl, rfl⟩ := List.map_eq_singleton_iff.mp parts
    rw [entryCells, List.flatMap_singleton] at owns
    have live := isLive_of_cell? (owns.cell? (List.mem_append_left _ (by rw [Term.cells_eq]; exact List.mem_cons_self)))
    refine ⟨s, [], p, A, ?_, .moved s, owns, rfl, by simp [Draft.isMoved]⟩
    rw [Draft.candidate, graft, live]
    rfl
  | binary op left right ihl ihr =>
    obtain ⟨first, second, rfl, firstParts, secondParts⟩ := List.map_eq_append_iff.mp parts
    rw [entryCells, List.flatMap_append, List.append_assoc] at owns
    obtain ⟨l, freshLeft, p, B, graftedLeft, buildsLeft, owns, roots, -⟩ := ihl firstParts owns
    obtain ⟨r, freshRight, q, B', graftedRight, buildsRight, owns, roots', -⟩ :=
      ihr secondParts (owns.perm (List.perm_append_comm_assoc _ _ _))
    have owns : B'.Owns (entryCells [(p, l), (q, r)] ++ rest) := by
      refine owns.perm ((List.perm_append_comm_assoc _ _ _).trans ?_)
      simp [entryCells]
    have different := tops_ne owns
    obtain ⟨h, E, added, -, owned, roots''⟩ := Owns.add (.binary op l.handle r.handle) _ owns rfl
    refine ⟨.binary h op l r, freshLeft ++ freshRight ++ [h], none, E, ?_, .binary op h buildsLeft buildsRight,
      ?_, roots''.trans (roots'.trans roots), fun _ => rfl⟩
    · rw [Draft.candidate, graft, graftedLeft]
      simp [bind, Except.bind, pure, Except.pure, graftedRight, addBinary, different, added]
    · simpa [Term.cells] using owned
  | not operand ih =>
    obtain ⟨t, fresh, p, B, grafted, builds, owns, roots, -⟩ := ih parts owns
    obtain ⟨h, E, added, -, owned, roots'⟩ :=
      Owns.add (.not t.handle) [(p, t)] (by simpa using owns) rfl
    refine ⟨.not h t, fresh ++ [h], none, E, ?_, .not h builds, ?_, roots'.trans roots, fun _ => rfl⟩
    · rw [Draft.candidate, graft, grafted]
      simp [bind, Except.bind, pure, Except.pure, addNot, added]
    · simpa [Term.cells] using owned
  | parens inner ih =>
    obtain ⟨t, fresh, p, B, grafted, builds, owns, roots, -⟩ := ih parts owns
    obtain ⟨h, E, added, -, owned, roots'⟩ :=
      Owns.add (.parens t.handle) [(p, t)] (by simpa using owns) rfl
    refine ⟨.parens h t, fresh ++ [h], none, E, ?_, .parens h builds, ?_, roots'.trans roots, fun _ => rfl⟩
    · rw [Draft.candidate, graft, grafted]
      simp [bind, Except.bind, pure, Except.pure, addParens, added]
    · simpa [Term.cells] using owned
  | id name =>
    obtain rfl := List.map_eq_nil_iff.mp parts
    obtain ⟨h, E, added, -, owned, roots⟩ := Owns.add (.id name) [] owns rfl
    refine ⟨.id h name, [h], none, E, ?_, .id h name, owned, roots, fun _ => rfl⟩
    rw [Draft.candidate, graft, addId, added]
    rfl
  | literal value =>
    obtain rfl := List.map_eq_nil_iff.mp parts
    obtain ⟨h, E, added, -, owned, roots⟩ := Owns.add (.literal value) [] owns rfl
    refine ⟨.literal h value, [h], none, E, ?_, .literal h value, owned, roots, fun _ => rfl⟩
    rw [Draft.candidate, graft, addLiteral, added]
    rfl

end Arena

/-! ### What is left of a term -/

namespace Term

variable {moved : List Handle} {t s : Term} {p q : Option Handle}

/-- The cells of a term outside its moved parts. -/
def residue (moved : List Handle) (p : Option Handle) : Term → List Cell
  | binary h op left right =>
    if h ∈ moved then [] else
      (h, ⟨.binary op left.handle right.handle, p⟩) ::
        (left.residue moved (some h) ++ right.residue moved (some h))
  | not h operand =>
    if h ∈ moved then [] else (h, ⟨.not operand.handle, p⟩) :: operand.residue moved (some h)
  | parens h inner =>
    if h ∈ moved then [] else (h, ⟨.parens inner.handle, p⟩) :: inner.residue moved (some h)
  | id h name => if h ∈ moved then [] else [(h, ⟨.id name, p⟩)]
  | literal h value => if h ∈ moved then [] else [(h, ⟨.literal value, p⟩)]

/-- The outermost moved parts of a term. -/
def spared (moved : List Handle) (p : Option Handle) : Term → List (Option Handle × Term)
  | t@(binary h _ left right) =>
    if h ∈ moved then [(p, t)] else left.spared moved (some h) ++ right.spared moved (some h)
  | t@(not h child) | t@(parens h child) =>
    if h ∈ moved then [(p, t)] else child.spared moved (some h)
  | t@(id h _) | t@(literal h _) => if h ∈ moved then [(p, t)] else []

theorem residue_of_mem (member : t.handle ∈ moved) : t.residue moved p = [] := by
  cases t <;> exact if_pos member

theorem spared_of_mem (member : t.handle ∈ moved) : t.spared moved p = [(p, t)] := by
  cases t <;> exact if_pos member

theorem residue_of_not_mem (stays : t.handle ∉ moved) :
    t.residue moved p =
      (t.handle, ⟨t.shape, p⟩) :: t.children.flatMap (residue moved (some t.handle)) := by
  cases t <;> simp only [handle] at stays <;> simp [residue, stays, children, handle, shape]

theorem spared_of_not_mem (stays : t.handle ∉ moved) :
    t.spared moved p = t.children.flatMap (spared moved (some t.handle)) := by
  cases t <;> simp only [handle] at stays <;> simp [spared, stays, children, handle]

/-- A term consists of its outermost moved parts and what is left. -/
theorem cells_perm_residue (moved : List Handle) (p : Option Handle) (t : Term) :
    (t.cells p).Perm (t.residue moved p ++ entryCells (t.spared moved p)) := by
  induction t using byChildren generalizing p with
  | step t ih =>
    by_cases member : t.handle ∈ moved
    · simp [residue_of_mem member, spared_of_mem member, entryCells]
    · rw [residue_of_not_mem member, spared_of_not_mem member, cells_eq, List.cons_append]
      refine List.Perm.cons _ ?_
      generalize t.children = children at ih
      induction children with
      | nil => simp [entryCells]
      | cons c later ihLater =>
        have first := ih c List.mem_cons_self (some t.handle)
        have others := ihLater (fun c member => ih c (List.mem_cons_of_mem _ member))
        rw [List.perm_iff_count] at first others ⊢
        intro cell
        have firstCount := first cell
        have otherCount := others cell
        simp only [entryCells, List.flatMap_cons, List.flatMap_append, List.count_append] at firstCount otherCount ⊢
        omega

end Term

end Propositional
