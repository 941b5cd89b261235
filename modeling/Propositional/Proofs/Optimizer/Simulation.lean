import Propositional.Optimizer.Pass
import Propositional.Proofs.Formula.Pass
import Propositional.Proofs.Rule.Operands

/-!
# Passes over arenas and over formulas

An optimizer whose rules follow some laws does with the term in a place what offers and passes do with
its formula: where those give an answer, so does the optimizer, and the formula of the term that it
leaves in the place is the answer. Everything outside the place stays as it is.
-/

namespace Propositional

namespace Journal

@[simp] theorem replacements_report (j : Journal) (verbosity : Verbosity) (e : Event) :
    (j.report verbosity e).replacements = j.replacements := by
  unfold report
  split <;> rfl

end Journal

namespace Optimizer

variable {o : Optimizer} {verbosity : Verbosity} {rules : List Rule} {laws : List Law} {A B : Arena}
  {C : Place} {t s : Term} {d : Draft Term} {j k : Journal} {steps n : Nat} {g : Formula}
  {ask : Option Connective → Formula → Option Outcome}

/-! ### One replacement -/

/-- The rule that is chosen follows the first law with a draft. -/
theorem choose_follows (follows : List.Forall₂ Rule.Follows rules laws) (represents : A.Represents (C.fill t))
    (verbosity : Verbosity) (j : Journal) :
    ∃ choice k, choose verbosity A t.handle j (rules.filter fun rule => rule.target = t.formula.variant) =
        .ok (choice, k) ∧ k.replacements = j.replacements ∧
      (choice = none ∧ Formula.firstDraft laws C.above t.formula = none ∨
        ∃ rule d, choice = some (rule, Draft.candidate d) ∧
          Formula.firstDraft laws C.above t.formula = some (d.map Term.formula) ∧ d.Within t ∧
          d ≠ .moved t) := by
  induction follows generalizing j with
  | nil => exact ⟨none, j, rfl, rfl, Or.inl ⟨rfl, rfl⟩⟩
  | @cons rule law later laws first rest ih =>
    by_cases target : t.formula.variant = rule.target
    · rw [List.filter_cons_of_pos (by simpa using target.symm), choose, Formula.firstDraft,
        List.findSome?_cons]
      rcases first.answers represents target with ⟨nothing, declined⟩ | ⟨d, drafted, within, changes, proposed⟩
      · rw [nothing]
        rcases declined with asked | ⟨c, asked, proposed, refused⟩
        · simp only [asked, bind, Except.bind]
          exact ih j
        · simp only [asked, proposed, refused, bind, Except.bind, if_true]
          obtain ⟨choice, k, chosen, counted, which⟩ := ih (j.report verbosity (.rejected rule.name t.handle))
          exact ⟨choice, k, chosen, counted.trans (j.replacements_report _ _), which⟩
      · obtain ⟨asked, candidate, accepted⟩ := proposed
        rw [drafted]
        simp only [asked, candidate, accepted, bind, Except.bind, if_true]
        exact ⟨_, j, rfl, rfl, Or.inr ⟨rule, d, rfl, rfl, within, changes⟩⟩
    · have silent : law C.above t.formula = none :=
        Option.eq_none_iff_forall_ne_some.mpr fun d drafted => target (first.target drafted)
      rw [List.filter_cons_of_neg (by simpa using Ne.symm target), Formula.firstDraft, List.findSome?_cons,
        silent]
      exact ih j

theorem idxOf?_slot (represents : A.Represents (C.fill t)) :
    ((C.shape t.handle).children.idxOf? t.handle).getD 0 = C.slot := by
  cases C with
  | right up h op sibling =>
    simp [Place.shape, Place.slot, Shape.children, List.idxOf?_cons, represents.sibling_ne]
  | _ => simp [Place.shape, Place.slot, Shape.children, List.idxOf?_cons]

theorem replaceWith_ok (represents : A.Represents (C.fill t)) (within : d.Within t) (changes : d ≠ .moved t)
    (verbosity : Verbosity) (rule : Rule) (j : Journal) :
    ∃ done s, replaceWith verbosity A C.parent t.handle rule d.candidate j = .ok done ∧
      d.Builds done.fresh s ∧ done.arena.Represents (C.fill s) ∧ done.arena.roots = A.roots ∧
      done.after = s.handle ∧ done.journal.replacements = j.replacements + 1 := by
  obtain ⟨s, fresh, B, substituted, builds, represented, roots, -⟩ := represents.substitute within changes
  obtain ⟨before, displayed⟩ := Arena.display_term represents.holds represents.size_lt_bound
  obtain ⟨after, redisplayed⟩ := Arena.display_term represented.holds represented.size_lt_bound
  have children := Arena.children_of_cell? represents.holder
  have child := Arena.child_of_cell? represented.holder C.slot
  rw [C.child?_shape] at child
  rw [replaceWith, children]
  simp only [bind, Except.bind, displayed, substituted, idxOf?_slot represents, child, redisplayed]
  split <;> exact ⟨_, s, rfl, builds, represented, roots, rfl, Journal.replacements_report _ _ _⟩

/-! ### Offers -/

/-- An optimizer has put a term with the expected formula into a place and counted as expected. -/
def Reaches (A : Arena) (j : Journal) (C : Place) (result : Checked (Arena × Journal)) (r : Outcome) : Prop :=
  ∃ B k s, result = .ok (B, k) ∧ B.Represents (C.fill s) ∧ B.roots = A.roots ∧ s.formula = r.1 ∧
    k.replacements = j.replacements + r.2 ∧ (r.2 = 0 → B = A)

theorem Reaches.refl (represents : A.Represents (C.fill t)) (j : Journal) :
    Reaches A j C (.ok (A, j)) (t.formula, 0) :=
  ⟨A, j, t, rfl, represents, rfl, rfl, rfl, fun _ => rfl⟩

theorem Reaches.after {a : Nat} {result : Checked (Arena × Journal)} (roots : B.roots = A.roots)
    (count : k.replacements = j.replacements + a) (kept : a = 0 → B = A) (later : Reaches B k C result (g, n)) :
    Reaches A j C result (g, a + n) := by
  obtain ⟨B', k', s, ran, represents, roots', same, count', kept'⟩ := later
  refine ⟨B', k', s, ran, represents, roots'.trans roots, same, ?_, ?_⟩
  · rw [count', count, Nat.add_assoc]
  · intro none
    obtain ⟨noneBefore, noneLater⟩ := Nat.add_eq_zero_iff.mp none
    exact (kept' noneLater).trans (kept noneBefore)

theorem Reaches.bind {D : Place} {f : Formula} {a : Nat} {result : Checked (Arena × Journal)}
    {next : Arena × Journal → Checked (Arena × Journal)} (first : Reaches A j D result (f, a))
    (second : ∀ {B k s}, B.Represents (D.fill s) → s.formula = f → Reaches B k C (next (B, k)) (g, n)) :
    Reaches A j C (result >>= next) (g, a + n) := by
  obtain ⟨B, k, s, rfl, represents, roots, same, count, kept⟩ := first
  exact (second represents same).after roots count kept

/-- An operation does at every place what an offer does with the formula there. -/
def Simulates (step : Handle → Arena × Journal → Checked (Arena × Journal))
    (ask : Option Connective → Formula → Option Outcome) : Prop :=
  ∀ ⦃A : Arena⦄ ⦃C : Place⦄ ⦃t : Term⦄ ⦃r : Outcome⦄ (j : Journal), A.Represents (C.fill t) →
    ask C.above t.formula = some r → Reaches A j C (step t.handle (A, j)) r

theorem Simulates.settle {step : Handle → Arena × Journal → Checked (Arena × Journal)}
    {fresh : List Handle} (simulates : Simulates step ask)
    (builds : d.Builds fresh s) (represents : A.Represents (C.fill s)) (j : Journal)
    (settled : (d.map Term.formula).settle ask C.above = some (g, n)) :
    Reaches A j C (fresh.foldlM (fun state h => step h state) (A, j)) (g, n) := by
  induction builds generalizing A C j g n with
  | moved t =>
    obtain ⟨rfl, rfl⟩ := Prod.mk.inj (Option.some.inj settled)
    exact Reaches.refl represents j
  | @binary left right freshLeft freshRight l r op h first second ihl ihr =>
    obtain ⟨lf, a, rf, b, c, settledLeft, settledRight, top, rfl⟩ := Draft.settle_binary_eq_some settled
    have left := ihl (C := .left C h op r) represents j settledLeft
    rw [List.append_assoc, List.foldlM_append, Nat.add_assoc]
    refine left.bind fun {A₁ j₁ l'} represents₁ same₁ => ?_
    have right := ihr (C := .right C h op l') represents₁ j₁ settledRight
    rw [List.foldlM_append]
    refine right.bind fun {A₂ j₂ r'} represents₂ same₂ => ?_
    subst same₁ same₂
    simpa using simulates (t := .binary h op l' r') j₂ represents₂ top
  | @not d fresh t h below ih =>
    obtain ⟨f, a, c, settledBelow, top, rfl⟩ := Draft.settle_not_eq_some settled
    have below := ih (C := .not C h) represents j settledBelow
    rw [List.foldlM_append]
    refine below.bind fun {A₁ j₁ t'} represents₁ same₁ => ?_
    subst same₁
    simpa using simulates (t := .not h t') j₁ represents₁ top
  | @parens d fresh t h below ih =>
    obtain ⟨f, a, c, settledBelow, top, rfl⟩ := Draft.settle_parens_eq_some settled
    have below := ih (C := .parens C h) represents j settledBelow
    rw [List.foldlM_append]
    refine below.bind fun {A₁ j₁ t'} represents₁ same₁ => ?_
    subst same₁
    simpa using simulates (t := .parens h t') j₁ represents₁ top
  | id h name => simpa using simulates (t := .id h name) j represents settled
  | literal h value => simpa using simulates (t := .literal h value) j represents settled

def offerFresh (again : Handle → Arena × Journal → Checked (Arena × Journal)) (h : Handle)
    (state : Arena × Journal) : Checked (Arena × Journal) := do
  if ← state.1.isLive h then again h state else throw (.freshGone h)

/-- Offers a node, where what comes of it is offered in a given way. -/
def offerWith (o : Optimizer) (verbosity : Verbosity)
    (again : Handle → Arena × Journal → Checked (Arena × Journal)) (h : Handle) (A : Arena) (j : Journal) :
    Checked (Arena × Journal) := do
  match ← A.parent h with
  | none => return (A, j)
  | some parent =>
    match ← choose verbosity A h j (o.rulesFor (← A.variant h)) with
    | (none, j) => return (A, j)
    | (some (rule, candidate), j) =>
      let done ← replaceWith verbosity A parent h rule candidate j
      if o.settle then
        let settled ← done.fresh.foldlM (fun state h => offerFresh again h state) (done.arena, done.journal)
        if done.fresh.contains done.after then return settled else again done.after settled
      else return (done.arena, done.journal)

theorem offerTo_succ (o : Optimizer) (verbosity : Verbosity) (steps : Nat) (h : Handle) (A : Arena)
    (j : Journal) :
    o.offerTo verbosity (steps + 1) h (A, j) = o.offerWith verbosity (o.offerTo verbosity steps) h A j := by
  rfl

theorem Simulates.offerFresh {again : Handle → Arena × Journal → Checked (Arena × Journal)}
    (simulates : Simulates again ask) : Simulates (offerFresh again) ask := by
  intro A C t r j represents offered
  rw [Optimizer.offerFresh, Arena.isLive_of_cell? represents.holds.top]
  exact simulates j represents offered

/-- Settling a replacement ends with the top of what was built, unless this was moved: then it is offered too. -/
theorem Simulates.settle_done {again : Handle → Arena × Journal → Checked (Arena × Journal)} {done : Replacement}
    {h : Formula} {a c : Nat} (simulates : Simulates again ask) (builds : d.Builds done.fresh s)
    (represents : done.arena.Represents (C.fill s)) (after : done.after = s.handle)
    (settled : (d.map Term.formula).settle ask C.above = some (h, a))
    (last : (if (d.map Term.formula).isMoved then ask C.above h else some (h, 0)) = some (g, c)) :
    Reaches done.arena done.journal C (do
      let settled ← done.fresh.foldlM (fun state h => Optimizer.offerFresh again h state) (done.arena, done.journal)
      if done.fresh.contains done.after then return settled else again done.after settled) (g, a + c) := by
  rw [Draft.isMoved_map] at last
  cases moved : d.isMoved with
  | true =>
    rw [moved] at last
    -- Nothing is new, and the moved term is offered where it now stands.
    obtain ⟨u, rfl⟩ := Draft.exists_of_isMoved moved
    obtain ⟨none, rfl⟩ := builds.of_moved
    obtain ⟨rfl, rfl⟩ := Prod.mk.inj (Option.some.inj settled)
    rw [none, after, Nat.zero_add]
    exact simulates done.journal represents last
  | false =>
    rw [moved] at last
    have top : done.fresh.contains done.after = true := by
      rw [after]
      simpa using builds.top_mem_fresh moved
    obtain ⟨rfl, rfl⟩ := Prod.mk.inj (Option.some.inj last)
    have ran := simulates.offerFresh.settle builds represents done.journal settled
    refine ran.bind fun {A₁ j₁ s₁} represents₁ same₁ => ?_
    rw [if_pos top, ← same₁]
    exact Reaches.refl represents₁ j₁

/-- Where an offer of the formula in a place has an answer, an offer of the node there reaches it. -/
theorem offerTo_simulates (follows : List.Forall₂ Rule.Follows o.rules laws) (verbosity : Verbosity)
    (steps : Nat) : Simulates (o.offerTo verbosity steps) (Formula.offer laws o.settle steps) := by
  induction steps with
  | zero =>
    intro A C t r j represents offered
    simp [Formula.offer] at offered
  | succ steps ih =>
    intro A C t r j represents offered
    obtain ⟨g, n⟩ := r
    obtain ⟨choice, k, chosen, counted, which⟩ := choose_follows follows represents verbosity j
    have variant := Arena.variant_of_cell? represents.holds.top
    rw [t.variant_shape] at variant
    rw [offerTo_succ, offerWith, Arena.parent_of_cell? represents.holds.top]
    simp only [bind, Except.bind, variant, rulesFor, chosen]
    rcases which with ⟨rfl, drafted⟩ | ⟨rule, d, rfl, drafted, within, changes⟩
    · rcases Formula.offer_eq_some offered with ⟨-, rfl, rfl⟩ | ⟨d, drafted', -⟩
      · exact ⟨A, k, t, rfl, represents, rfl, rfl, counted, fun _ => rfl⟩
      · rw [drafted] at drafted'
        simp at drafted'
    · obtain ⟨done, s, replaced, builds, represented, roots, after, count⟩ :=
        replaceWith_ok represents within changes verbosity rule k
      simp only [replaced]
      rcases Formula.offer_eq_some offered with ⟨drafted', -⟩ | ⟨draft, drafted', ended⟩
      · rw [drafted] at drafted'
        simp at drafted'
      obtain rfl : d.map Term.formula = draft := Option.some.inj (drafted.symm.trans drafted')
      have count : done.journal.replacements = j.replacements + 1 := by omega
      rcases ended with ⟨unsettled, rfl, rfl⟩ | ⟨settling, h, a, c, settled, last, rfl⟩
      · rw [unsettled, ← builds.formula]
        exact (Reaches.refl represented _).after roots count (by simp)
      · rw [Nat.add_comm _ 1]
        refine Reaches.after roots count (by simp) ?_
        rw [settling, if_pos rfl]
        exact ih.settle_done builds represented after settled last

/-! ### Walks -/

/-- What a walk has done, apart from the number of visits that it counts. -/
def walked (w : Arena.Walk Journal) : Arena × Journal := (w.arena, w.notes)

theorem Reaches.bind_walk {D : Place} {f : Formula} {a : Nat} {result : Checked (Arena.Walk Journal)}
    {next : Arena.Walk Journal → Checked (Arena.Walk Journal)}
    (first : Reaches A j D (result.map walked) (f, a))
    (second : ∀ {w s}, w.arena.Represents (D.fill s) → s.formula = f →
      Reaches w.arena w.notes C ((next w).map walked) (g, n)) :
    Reaches A j C ((result >>= next).map walked) (g, a + n) := by
  obtain ⟨B, k, s, ran, represents, roots, same, count, kept⟩ := first
  cases result with
  | error fault => simp [Except.map] at ran
  | ok w =>
    obtain ⟨rfl, rfl⟩ : w.arena = B ∧ w.notes = k := Prod.mk.inj (Except.ok.inj ran)
    exact (second represents same).after roots count kept

theorem visit_walked (o : Optimizer) (verbosity : Verbosity) (steps : Nat) (w : Arena.Walk Journal)
    (h : Handle) : (w.visit (o.visit verbosity steps) h).map walked =
      o.offerTo verbosity steps h (w.arena, w.notes) := by
  rw [Arena.Walk.visit, visit]
  cases o.offerTo verbosity steps h (w.arena, w.notes) <;> rfl

theorem child_of_represents (represents : A.Represents (C.fill t)) (slot : Nat) :
    A.child t.handle slot = .ok (t.shape.child? slot) :=
  Arena.child_of_cell? represents.holds.top slot

theorem fromSlot_last (simulates : Simulates (o.offerTo verbosity steps) ask) {w : Arena.Walk Journal}
    (represents : w.arena.Represents (C.fill t)) {slot : Nat} (last : t.shape.child? slot = none)
    (offered : ask C.above t.formula = some (g, n)) (fuel : Nat) :
    Reaches w.arena w.notes C
      ((Arena.Walk.fromSlot (o.visit verbosity steps) (fuel + 1) t.handle slot w).map walked) (g, n) := by
  rw [Arena.Walk.fromSlot, child_of_represents represents, last]
  exact (visit_walked o verbosity steps w t.handle) ▸ simulates w.notes represents offered

/-- A walk through a term offers its nodes as if they were all new. -/
theorem fromSlot_simulates (simulates : Simulates (o.offerTo verbosity steps) ask) {fuel : Nat}
    {w : Arena.Walk Journal} (represents : w.arena.Represents (C.fill t))
    (passed : t.formula.toDraft.settle ask C.above = some (g, n)) (deep : 2 * t.size ≤ fuel) :
    Reaches w.arena w.notes C
      ((Arena.Walk.fromSlot (o.visit verbosity steps) fuel t.handle 0 w).map walked) (g, n) := by
  induction t generalizing C w fuel g n with
  | binary h op left right ihl ihr =>
    rw [Term.size_binary] at deep
    obtain ⟨fuel, rfl⟩ : ∃ m, fuel = m + 3 := ⟨fuel - 3, by have := left.size_pos; omega⟩
    obtain ⟨lf, a, rf, b, c, settledLeft, settledRight, top, rfl⟩ := Draft.settle_binary_eq_some passed
    rw [Arena.Walk.fromSlot, child_of_represents represents, Nat.add_assoc]
    have first := ihl (C := .left C h op right) represents settledLeft (show _ ≤ fuel + 2 by omega)
    refine first.bind_walk fun {w₁ l'} represents₁ same₁ => ?_
    replace represents₁ : w₁.arena.Represents (C.fill (.binary h op l' right)) := represents₁
    have read : w₁.arena.child h 1 = .ok (some right.handle) := child_of_represents represents₁ 1
    rw [Term.handle_binary, Arena.Walk.fromSlot, read]
    have second := ihr (C := .right C h op l') represents₁ settledRight (show _ ≤ fuel + 1 by omega)
    refine second.bind_walk fun {w₂ r'} represents₂ same₂ => ?_
    subst same₁ same₂
    exact fromSlot_last simulates (t := .binary h op l' r') represents₂ rfl top fuel
  | not h child ih =>
    rw [Term.size_not] at deep
    obtain ⟨fuel, rfl⟩ : ∃ m, fuel = m + 2 := ⟨fuel - 2, by omega⟩
    obtain ⟨f, a, c, settledBelow, top, rfl⟩ := Draft.settle_not_eq_some passed
    rw [Arena.Walk.fromSlot, child_of_represents represents]
    have below := ih (C := .not C h) represents settledBelow (show _ ≤ fuel + 1 by omega)
    refine below.bind_walk fun {w₁ s} represents₁ same₁ => ?_
    subst same₁
    exact fromSlot_last simulates (t := .not h s) represents₁ rfl top fuel
  | parens h child ih =>
    rw [Term.size_parens] at deep
    obtain ⟨fuel, rfl⟩ : ∃ m, fuel = m + 2 := ⟨fuel - 2, by omega⟩
    obtain ⟨f, a, c, settledBelow, top, rfl⟩ := Draft.settle_parens_eq_some passed
    rw [Arena.Walk.fromSlot, child_of_represents represents]
    have below := ih (C := .parens C h) represents settledBelow (show _ ≤ fuel + 1 by omega)
    refine below.bind_walk fun {w₁ s} represents₁ same₁ => ?_
    subst same₁
    exact fromSlot_last simulates (t := .parens h s) represents₁ rfl top fuel
  | id h x | literal h x =>
    obtain ⟨fuel, rfl⟩ : ∃ m, fuel = m + 1 := ⟨fuel - 1, by simp [Term.size, Term.handles] at deep; omega⟩
    exact fromSlot_last simulates represents rfl passed fuel

/-! ### Passes -/

/-- A walk from the node goes through the term in the place: it is the top of the term, or the root
right above it. -/
def Covers (C : Place) (t : Term) (start : Handle) : Prop :=
  start = t.handle ∨ C.grandparent = none ∧ start = C.parent

theorem offerTo_root (rootCell : A.cell? C.parent = some ⟨C.shape t.handle, none⟩) (steps : Nat) (j : Journal) :
    o.offerTo verbosity (steps + 1) C.parent (A, j) = .ok (A, j) := by
  rw [offerTo, Arena.parent_of_cell? rootCell]
  rfl

theorem fromSlot_covers (simulates : Simulates (o.offerTo verbosity (steps + 1)) ask) {fuel : Nat}
    {start : Handle} {w : Arena.Walk Journal} (represents : w.arena.Represents (C.fill t))
    (covers : Covers C t start) (passed : t.formula.toDraft.settle ask C.above = some (g, n))
    (deep : 2 * t.size + 2 ≤ fuel) :
    Reaches w.arena w.notes C
      ((Arena.Walk.fromSlot (o.visit verbosity (steps + 1)) fuel start 0 w).map walked) (g, n) := by
  rcases covers with rfl | ⟨root, rfl⟩
  · exact fromSlot_simulates simulates represents passed (by omega)
  · obtain ⟨fuel, rfl⟩ : ∃ m, fuel = m + 2 := ⟨fuel - 2, by omega⟩
    have child := Arena.child_of_cell? represents.holder 0
    cases C with
    | top before h after =>
      rw [Arena.Walk.fromSlot, child]
      have body := fromSlot_simulates simulates represents passed (show _ ≤ fuel + 1 by omega)
      refine Reaches.bind_walk (n := 0) body fun {w₁ s} represents₁ same₁ => ?_
      have held := represents₁.holder
      have none_left : w₁.arena.child h 1 = .ok none := Arena.child_of_cell? held 1
      rw [Arena.Walk.fromSlot, Place.parent, none_left]
      refine (visit_walked o verbosity (steps + 1) w₁ h) ▸ ?_
      rw [show o.offerTo verbosity (steps + 1) h (w₁.arena, w₁.notes) = .ok (w₁.arena, w₁.notes) from
        offerTo_root held steps w₁.notes, ← same₁]
      exact Reaches.refl represents₁ w₁.notes
    | _ => simp [Place.grandparent] at root

/-- Where a pass over the formula in a place has an answer, a pass over the nodes there reaches it. -/
theorem runPassTo_simulates (follows : List.Forall₂ Rule.Follows o.rules laws) {start : Handle}
    (represents : A.Represents (C.fill t)) (covers : Covers C t start)
    (passed : t.formula.pass laws o.settle steps C.above = some (g, n)) (deep : 2 * t.size + 2 ≤ steps) :
    Reaches A {} C (o.runPassTo verbosity steps A start) (g, n) := by
  obtain ⟨steps, rfl⟩ : ∃ m, steps = m + 1 := ⟨steps - 1, by omega⟩
  have simulates := offerTo_simulates follows verbosity (steps + 1)
  have walk := fromSlot_covers simulates (w := ⟨A, {}, 0⟩) represents covers passed deep
  obtain ⟨B, k, s, ran, rest⟩ := walk
  rw [runPassTo, Arena.walkTo]
  cases ended : Arena.Walk.fromSlot (o.visit verbosity (steps + 1)) (steps + 1) start 0 ⟨A, {}, 0⟩ with
  | error fault => simp [ended, Except.map] at ran
  | ok w =>
    rw [ended] at ran
    obtain ⟨rfl, rfl⟩ : w.arena = B ∧ w.notes = k := Prod.mk.inj (Except.ok.inj ran)
    simp only [bind, Except.bind]
    refine ⟨w.arena, _, s, rfl, ?_⟩
    rw [Journal.replacements_report]
    exact rest

end Optimizer

end Propositional
