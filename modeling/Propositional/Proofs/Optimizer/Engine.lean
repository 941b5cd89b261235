import Propositional.Proofs.Arena.Admission
import Propositional.Proofs.Optimizer.Calls
import Propositional.Proofs.Optimizer.Soundness

/-!
# Passes with any rules

What an optimizer does with rules that it does not know rests on what the rules promise: to answer, and
to want only admitted candidates with the value of the node. A pass then has no fault, keeps the arena
well formed and keeps all values, unless it does not end. Nothing else is asked of the rules, so they
may make formulas larger, or wrap a node that they replace.
-/

namespace Propositional

/-- The draft can take the place of the term and has its value. -/
structure Draft.Fits (d : Draft Term) (t : Term) : Prop where
  within : d.Within t
  changes : d ≠ .moved t
  same_value : ∀ σ, (d.map Term.formula).formula.eval σ = t.formula.eval σ

namespace Rule

variable {A : Arena} {C : Place} {t : Term} {rule : Rule} {h : Handle}

/-- A rule may be asked about a node of its target that has a parent, in a well-formed arena. -/
structure MayAsk (rule : Rule) (A : Arena) (h : Handle) : Prop where
  wellFormed : A.WellFormed
  attached : ∃ p, A.parent h = .ok (some p)
  target : A.variant h = .ok rule.target

/-- Where it may be asked, the rule answers, and what it wants there is admitted and has the value of
the node. -/
structure Sound (rule : Rule) : Prop where
  answers : ∀ {A h}, rule.MayAsk A h → rule.Declines A h ∨ ∃ c, rule.Proposes A h c
  admits : ∀ {A h c}, rule.MayAsk A h → rule.Proposes A h c → A.Admits h c
  same_value : ∀ {A h c}, rule.MayAsk A h → rule.Proposes A h c → ∀ σ, c.eval A σ = A.eval σ h

theorem mayAsk_of_target (represents : A.Represents (C.fill t)) (target : rule.target = t.formula.variant) :
    rule.MayAsk A t.handle := by
  refine ⟨represents.wellFormed, ⟨_, Arena.parent_of_cell? represents.holds.top⟩, ?_⟩
  rw [Arena.variant_of_cell? represents.holds.top, t.variant_shape, target]

theorem Sound.drafts (sound : rule.Sound) (represents : A.Represents (C.fill t))
    (target : rule.target = t.formula.variant) :
    rule.Declines A t.handle ∨ ∃ d : Draft Term, rule.Proposes A t.handle d.candidate ∧ d.Fits t := by
  have asked := mayAsk_of_target represents target
  rcases sound.answers asked with declines | ⟨c, proposes⟩
  · exact Or.inl declines
  · obtain ⟨d, rfl, within, changes⟩ := represents.exists_draft (sound.admits asked proposes)
    refine Or.inr ⟨d, proposes, within, changes, fun σ => ?_⟩
    have same := sound.same_value asked proposes σ
    rw [represents.eval_candidate within, represents.holds.eval represents.size_lt_bound] at same
    exact Except.ok.inj same

theorem MayAsk.exists_place (asked : rule.MayAsk A h) :
    ∃ C t, A.Represents (Place.fill C t) ∧ t.handle = h ∧ t.formula.variant = rule.target := by
  obtain ⟨p, named⟩ := asked.attached
  obtain ⟨C, t, represents, rfl, -⟩ := asked.wellFormed.exists_place named
  have target := asked.target
  rw [Arena.variant_of_cell? represents.holds.top, t.variant_shape] at target
  exact ⟨C, t, represents, rfl, Except.ok.inj target⟩

theorem Follows.exists_draft {law : Law} {c : Candidate} (follows : rule.Follows law)
    (represents : A.Represents (C.fill t)) (target : t.formula.variant = rule.target)
    (proposes : rule.Proposes A t.handle c) : ∃ d : Draft Term, d.candidate = c ∧ d.Within t ∧
      d ≠ .moved t ∧ law C.above t.formula = some (d.map Term.formula) := by
  obtain ⟨asked, proposed, accepted⟩ := proposes
  rcases follows.answers represents target with
    ⟨-, asked' | ⟨c', -, proposed', refused⟩⟩ | ⟨d, drafted, within, changes, -, proposed', -⟩
  · rw [asked'] at asked
    simp at asked
  · obtain rfl := Except.ok.inj (proposed.symm.trans proposed')
    rw [refused] at accepted
    simp at accepted
  · exact ⟨d, Except.ok.inj (proposed'.symm.trans proposed), within, changes, drafted⟩

theorem sound_of_mem_builtin (library : rule ∈ builtin) : rule.Sound := by
  have single : ∀ r ∈ [rule], r ∈ builtin := by simpa using library
  obtain ⟨laws, paired, members⟩ := Optimizer.exists_laws single
  obtain ⟨law, later, follows, -, rfl⟩ := List.forall₂_cons_left_iff.mp paired
  refine ⟨fun asked => ?_, fun asked proposes => ?_, fun asked proposes σ => ?_⟩ <;>
    obtain ⟨C, t, represents, rfl, target⟩ := asked.exists_place
  · rcases follows.answers represents target with ⟨-, declines⟩ | ⟨d, -, -, -, proposes⟩
    · exact Or.inl declines
    · exact Or.inr ⟨_, proposes⟩
  · obtain ⟨d, rfl, within, changes, -⟩ := follows.exists_draft represents target proposes
    exact represents.admits_draft within changes
  · obtain ⟨d, rfl, within, -, drafted⟩ := follows.exists_draft represents target proposes
    rw [represents.eval_candidate within, represents.holds.eval represents.size_lt_bound,
      Law.eval_of_mem_builtin (members law List.mem_cons_self) drafted σ]

/-- A rule that is not in the library: it puts every name in parentheses, below which the name stays. -/
def wrapName : Rule where
  name := "wrap-name"
  target := .id
  appropriate _ _ := return true
  propose _ h := return .parens (.existing h)

theorem wrapName_sound : wrapName.Sound where
  answers _ := Or.inr ⟨_, rfl, rfl, rfl⟩
  admits asked proposes := by
    obtain ⟨C, t, represents, rfl, -⟩ := asked.exists_place
    obtain rfl := Except.ok.inj proposes.2.1
    refine represents.admits_draft (d := .parens (.moved t)) ⟨fun p s part => ?_, ?_⟩ (by simp)
    · obtain rfl := List.mem_singleton.mp part
      exact ⟨p, s.self_mem_subterms p⟩
    · simpa [Draft.parts] using represents.nodup
  same_value _ proposes σ := by
    obtain rfl := Except.ok.inj proposes.2.1
    rfl

end Rule

namespace Optimizer

variable {o : Optimizer} {verbosity : Verbosity} {A B : Arena} {C D : Place} {t s u : Term} {d : Draft Term}
  {j : Journal} {steps : Nat} {f g : Formula} {result : Checked (Arena × Journal)}

theorem choose_answers {rules : List Rule} {h : Handle} {P : Draft Term → Prop}
    (each : ∀ rule ∈ rules, rule.Declines A h ∨ ∃ d : Draft Term, rule.Proposes A h d.candidate ∧ P d)
    (verbosity : Verbosity) (j : Journal) :
    ∃ choice k, choose verbosity A h j rules = .ok (choice, k) ∧
      (choice = none ∨ ∃ rule, ∃ d : Draft Term, choice = some (rule, d.candidate) ∧ P d) := by
  induction rules generalizing j with
  | nil => exact ⟨none, j, rfl, Or.inl rfl⟩
  | cons rule later ih =>
    replace ih := ih fun rule member => each rule (List.mem_cons_of_mem _ member)
    rw [choose]
    rcases each rule List.mem_cons_self with
      (asked | ⟨c, asked, proposed, refused⟩) | ⟨d, ⟨asked, proposed, accepted⟩, fits⟩
    · simp only [asked, bind, Except.bind]
      exact ih j
    · simp only [asked, proposed, refused, bind, Except.bind, if_true]
      exact ih _
    · simp only [asked, proposed, accepted, bind, Except.bind, if_true]
      exact ⟨_, j, rfl, Or.inr ⟨rule, d, rfl, fits⟩⟩

theorem choose_sound {rules : List Rule}
    (sound : ∀ rule ∈ rules, rule.Sound ∧ rule.target = t.formula.variant) (represents : A.Represents (C.fill t))
    (verbosity : Verbosity) (j : Journal) :
    ∃ choice k, choose verbosity A t.handle j rules = .ok (choice, k) ∧
      (choice = none ∨ ∃ rule, ∃ d : Draft Term, choice = some (rule, d.candidate) ∧ d.Fits t) := by
  apply choose_answers
  intro rule member
  obtain ⟨sound, target⟩ := sound rule member
  exact sound.drafts represents target

/-! ### Offers -/

/-- An operation did not end, or has left a term with the values of a formula in a place. -/
def KeepsValue (A : Arena) (C : Place) (f : Formula) (result : Checked (Arena × Journal)) : Prop :=
  result = .error .endless ∨ ∃ B k s, result = .ok (B, k) ∧ B.Represents (C.fill s) ∧ B.roots = A.roots ∧
    ∀ σ, s.formula.eval σ = f.eval σ

namespace KeepsValue

theorem refl (represents : A.Represents (C.fill t)) (j : Journal) : KeepsValue A C t.formula (.ok (A, j)) :=
  Or.inr ⟨A, j, t, rfl, represents, rfl, fun _ => rfl⟩

theorem after (roots : B.roots = A.roots) (same : ∀ σ, g.eval σ = f.eval σ) (later : KeepsValue B C g result) :
    KeepsValue A C f result := by
  rcases later with endless | ⟨B', k, s, ran, represents, roots', same'⟩
  · exact Or.inl endless
  · exact Or.inr ⟨B', k, s, ran, represents, roots'.trans roots, fun σ => (same' σ).trans (same σ)⟩

theorem bind {next : Arena × Journal → Checked (Arena × Journal)} (first : KeepsValue A D f result)
    (second : ∀ {B k s}, B.Represents (D.fill s) → (∀ σ, s.formula.eval σ = f.eval σ) →
      KeepsValue B C g (next (B, k))) : KeepsValue A C g (result >>= next) := by
  rcases first with rfl | ⟨B, k, s, rfl, represents, roots, same⟩
  · exact Or.inl rfl
  · exact (second represents same).after roots fun _ => rfl

end KeepsValue

/-- At every place, the operation keeps the values of the term there. -/
def Steady (step : Handle → Arena × Journal → Checked (Arena × Journal)) : Prop :=
  ∀ ⦃A : Arena⦄ ⦃C : Place⦄ ⦃t : Term⦄ (j : Journal), A.Represents (C.fill t) →
    KeepsValue A C t.formula (step t.handle (A, j))

theorem Steady.settle {step : Handle → Arena × Journal → Checked (Arena × Journal)} {fresh : List Handle}
    (steady : Steady step) (builds : d.Builds fresh s) (represents : A.Represents (C.fill s)) (j : Journal) :
    KeepsValue A C s.formula (fresh.foldlM (fun state h => step h state) (A, j)) := by
  -- What comes of a new node hangs where the node hung, below new nodes that are offered later and that
  -- it cannot touch. So each of them is still there when its turn comes.
  induction builds generalizing A C j with
  | moved t => exact .refl represents j
  | @binary left right freshLeft freshRight l r op h first second ihl ihr =>
    rw [List.append_assoc, List.foldlM_append]
    refine (ihl (C := .left C h op r) represents j).bind fun {A₁ j₁ l'} represents₁ same₁ => ?_
    rw [List.foldlM_append]
    refine (ihr (C := .right C h op l') represents₁ j₁).bind fun {A₂ j₂ r'} represents₂ same₂ => ?_
    have top := steady (t := .binary h op l' r') j₂ represents₂
    have same : ∀ σ, (Term.binary h op l' r').formula.eval σ = (Term.binary h op l r).formula.eval σ := by
      intro σ
      rw [Term.formula, Term.formula, Formula.eval, Formula.eval, same₁, same₂]
    simpa using top.after rfl same
  | @not d fresh t h below ih =>
    rw [List.foldlM_append]
    refine (ih (C := .not C h) represents j).bind fun {A₁ j₁ t'} represents₁ same₁ => ?_
    have top := steady (t := .not h t') j₁ represents₁
    have same : ∀ σ, (Term.not h t').formula.eval σ = (Term.not h t).formula.eval σ := by
      intro σ
      rw [Term.formula, Term.formula, Formula.eval, Formula.eval, same₁]
    simpa using top.after rfl same
  | @parens d fresh t h below ih =>
    rw [List.foldlM_append]
    refine (ih (C := .parens C h) represents j).bind fun {A₁ j₁ t'} represents₁ same₁ => ?_
    have top := steady (t := .parens h t') j₁ represents₁
    have same : ∀ σ, (Term.parens h t').formula.eval σ = (Term.parens h t).formula.eval σ := same₁
    simpa using top.after rfl same
  | id h name => simpa using steady (t := .id h name) j represents
  | literal h value => simpa using steady (t := .literal h value) j represents

theorem Steady.offerFresh {again : Handle → Arena × Journal → Checked (Arena × Journal)}
    (steady : Steady again) : Steady (offerFresh again) := by
  intro A C t j represents
  rw [Optimizer.offerFresh, Arena.isLive_of_cell? represents.holds.top]
  exact steady j represents

theorem offerTo_steady (sound : ∀ rule ∈ o.rules, rule.Sound) (verbosity : Verbosity) (steps : Nat) :
    Steady (o.offerTo verbosity steps) := by
  induction steps with
  | zero => exact fun _ _ _ _ _ => Or.inl rfl
  | succ steps ih =>
    intro A C t j represents
    have variant := Arena.variant_of_cell? represents.holds.top
    rw [t.variant_shape] at variant
    have meant : ∀ rule ∈ o.rulesFor t.formula.variant, rule.Sound ∧ rule.target = t.formula.variant := by
      intro rule member
      have ⟨listed, target⟩ := List.mem_filter.mp member
      exact ⟨sound rule listed, by simpa using target⟩
    obtain ⟨choice, k, chosen, which⟩ := choose_sound meant represents verbosity j
    rw [offerTo_succ, offerWith, Arena.parent_of_cell? represents.holds.top]
    simp only [bind, Except.bind, variant, chosen]
    rcases which with rfl | ⟨rule, d, rfl, fits⟩
    · exact .refl represents k
    obtain ⟨done, s, replaced, builds, represented, roots, after, -⟩ :=
      replaceWith_ok represents fits.within fits.changes verbosity rule k
    have same : ∀ σ, s.formula.eval σ = t.formula.eval σ := by
      rw [builds.formula]
      exact fits.same_value
    simp only [replaced]
    refine KeepsValue.after roots same ?_
    cases o.settle with
    | false => exact .refl represented done.journal
    | true =>
      rw [if_pos rfl]
      cases moved : d.isMoved with
      | true =>
        -- Nothing is new, and the moved term is offered where it now stands.
        obtain ⟨u, rfl⟩ := Draft.exists_of_isMoved moved
        obtain ⟨none, rfl⟩ := builds.of_moved
        rw [none, after]
        exact ih done.journal represented
      | false =>
        have top : done.fresh.contains done.after = true := by
          rw [after]
          simpa using builds.top_mem_fresh moved
        refine (ih.offerFresh.settle builds represented done.journal).bind fun {A₁ j₁ s₁} represents₁ same₁ => ?_
        rw [if_pos top]
        exact (KeepsValue.refl represents₁ j₁).after rfl same₁

/-! ### Walks -/

theorem KeepsValue.of_walk {result : Checked (Arena.Walk Journal)} (kept : KeepsValue A C f (result.map walked)) :
    result = .error .endless ∨ ∃ w s, result = .ok w ∧ w.arena.Represents (C.fill s) ∧ w.arena.roots = A.roots ∧
      ∀ σ, s.formula.eval σ = f.eval σ := by
  cases result with
  | error fault =>
    rcases kept with endless | ⟨B, k, s, ran, -⟩
    · exact Or.inl (congrArg Except.error (Except.error.inj endless))
    · simp [Except.map] at ran
  | ok w =>
    rcases kept with endless | ⟨B, k, s, ran, rest⟩
    · simp [Except.map] at endless
    · obtain ⟨rfl, rfl⟩ : w.arena = B ∧ w.notes = k := Prod.mk.inj (Except.ok.inj ran)
      exact Or.inr ⟨w, s, rfl, rest⟩

theorem KeepsValue.bind_walk {result : Checked (Arena.Walk Journal)}
    {next : Arena.Walk Journal → Checked (Arena.Walk Journal)} (first : KeepsValue A D f (result.map walked))
    (second : ∀ {w s}, w.arena.Represents (D.fill s) → (∀ σ, s.formula.eval σ = f.eval σ) →
      KeepsValue w.arena C g ((next w).map walked)) : KeepsValue A C g ((result >>= next).map walked) := by
  rcases first.of_walk with rfl | ⟨w, s, rfl, represents, roots, same⟩
  · exact Or.inl rfl
  · exact (second represents same).after roots fun _ => rfl

variable {w : Arena.Walk Journal} {h : Handle} {slot : Nat}

theorem fromSlot_child (read : w.arena.child h slot = .ok (some u.handle))
    (below : ∀ fuel, KeepsValue w.arena D u.formula
      ((Arena.Walk.fromSlot (o.visit verbosity steps) fuel u.handle 0 w).map walked))
    (across : ∀ fuel {w' s}, w'.arena.Represents (D.fill s) → (∀ σ, s.formula.eval σ = u.formula.eval σ) →
      KeepsValue w'.arena C f
        ((Arena.Walk.fromSlot (o.visit verbosity steps) fuel h (slot + 1) w').map walked)) (fuel : Nat) :
    KeepsValue w.arena C f ((Arena.Walk.fromSlot (o.visit verbosity steps) fuel h slot w).map walked) := by
  cases fuel with
  | zero => exact Or.inl rfl
  | succ fuel =>
    rw [Arena.Walk.fromSlot, read]
    exact (below fuel).bind_walk (across fuel)

theorem fromSlot_visit (read : w.arena.child h slot = .ok none)
    (offered : KeepsValue w.arena C f (o.offerTo verbosity steps h (w.arena, w.notes))) (fuel : Nat) :
    KeepsValue w.arena C f ((Arena.Walk.fromSlot (o.visit verbosity steps) fuel h slot w).map walked) := by
  cases fuel with
  | zero => exact Or.inl rfl
  | succ fuel =>
    rw [Arena.Walk.fromSlot, read]
    exact (visit_walked o verbosity steps w h) ▸ offered

theorem fromSlot_steady (steady : Steady (o.offerTo verbosity steps)) (represents : w.arena.Represents (C.fill t))
    (fuel : Nat) : KeepsValue w.arena C t.formula
      ((Arena.Walk.fromSlot (o.visit verbosity steps) fuel t.handle 0 w).map walked) := by
  induction t generalizing C w fuel with
  | binary h op left right ihl ihr =>
    refine fromSlot_child (D := .left C h op right) (child_of_represents represents 0) (ihl represents)
      (fun fuel {w₁ l'} represents₁ same₁ => ?_) fuel
    replace represents₁ : w₁.arena.Represents (C.fill (.binary h op l' right)) := represents₁
    refine fromSlot_child (D := .right C h op l') (child_of_represents represents₁ 1) (ihr represents₁)
      (fun fuel {w₂ r'} represents₂ same₂ => ?_) fuel
    replace represents₂ : w₂.arena.Represents (C.fill (.binary h op l' r')) := represents₂
    refine fromSlot_visit (child_of_represents represents₂ 2) ?_ fuel
    refine (steady w₂.notes represents₂).after rfl fun σ => ?_
    rw [Term.formula, Term.formula, Formula.eval, Formula.eval, same₁, same₂]
  | not h child ih =>
    refine fromSlot_child (D := .not C h) (child_of_represents represents 0) (ih represents)
      (fun fuel {w₁ s} represents₁ same₁ => ?_) fuel
    replace represents₁ : w₁.arena.Represents (C.fill (.not h s)) := represents₁
    refine fromSlot_visit (child_of_represents represents₁ 1) ?_ fuel
    refine (steady w₁.notes represents₁).after rfl fun σ => ?_
    rw [Term.formula, Term.formula, Formula.eval, Formula.eval, same₁]
  | parens h child ih =>
    refine fromSlot_child (D := .parens C h) (child_of_represents represents 0) (ih represents)
      (fun fuel {w₁ s} represents₁ same₁ => ?_) fuel
    replace represents₁ : w₁.arena.Represents (C.fill (.parens h s)) := represents₁
    exact fromSlot_visit (child_of_represents represents₁ 1) ((steady w₁.notes represents₁).after rfl same₁) fuel
  | id h x | literal h x => exact fromSlot_visit (child_of_represents represents 0) (steady w.notes represents) fuel

theorem fromSlot_steady_covers (steady : Steady (o.offerTo verbosity steps))
    (represents : w.arena.Represents (C.fill t)) {start : Handle} (covers : Covers C t start) (fuel : Nat) :
    KeepsValue w.arena C t.formula
      ((Arena.Walk.fromSlot (o.visit verbosity steps) fuel start 0 w).map walked) := by
  rcases covers with rfl | ⟨root, rfl⟩
  · exact fromSlot_steady steady represents fuel
  · cases C with
    | top before h after =>
      refine fromSlot_child (D := .top before h after) (Arena.child_of_cell? represents.holder 0)
        (fromSlot_steady steady represents) (fun fuel {w₁ s} represents₁ same₁ => ?_) fuel
      have held := represents₁.holder
      refine fromSlot_visit (Arena.child_of_cell? held 1) ?_ fuel
      -- A root has no parent, so it is left alone.
      cases steps with
      | zero => exact Or.inl rfl
      | succ steps =>
        rw [offerTo_root held steps w₁.notes]
        exact (KeepsValue.refl represents₁ w₁.notes).after rfl same₁
    | _ => simp [Place.grandparent] at root

/-! ### Passes -/

theorem runPassTo_keepsValue (sound : ∀ rule ∈ o.rules, rule.Sound) (represents : A.Represents (C.fill t))
    {start : Handle} (covers : Covers C t start) (verbosity : Verbosity) (steps : Nat) :
    KeepsValue A C t.formula (o.runPassTo verbosity steps A start) := by
  have steady := offerTo_steady sound verbosity steps
  have walk := fromSlot_steady_covers steady (w := ⟨A, {}, 0⟩) represents covers steps
  rw [runPassTo, Arena.walkTo]
  rcases walk.of_walk with endless | ⟨w, s, ended, rest⟩
  · rw [endless]
    exact Or.inl rfl
  · rw [ended]
    exact Or.inr ⟨w.arena, _, s, rfl, rest⟩

/-- With sound rules of any kind, a pass from a live node that ends in some number of steps has no fault:
it answers, alike in more steps, with a well-formed arena in which every root has the value that it had.
Every node that is offered on the way is live at that time. -/
theorem runPassTo_sound {start : Handle} (wellFormed : A.WellFormed) (sound : ∀ rule ∈ o.rules, rule.Sound)
    (live : A.isLive start = .ok true) (verbosity : Verbosity) (steps : Nat)
    (ends : o.runPassTo verbosity steps A start ≠ .error .endless) :
    ∃ B j, (∀ more, steps ≤ more → o.runPassTo verbosity more A start = .ok (B, j)) ∧ B.WellFormed ∧
      SameValues A B ∧
      ∀ left h D k, Relation.ReflTransGen (Makes o verbosity) (.walk steps steps start 0 ⟨A, {}, 0⟩)
        (.offer left h (D, k)) → D.isLive h = .ok true := by
  obtain ⟨trees, represents⟩ := wellFormed.exists_represents
  obtain ⟨C, t, rfl, covers⟩ := exists_covers represents live
  rcases runPassTo_keepsValue sound represents covers verbosity steps with
    endless | ⟨B, j, s, ran, represented, roots, same⟩
  · exact absurd endless ends
  · refine ⟨B, j, fun more enough => runPassTo_mono ran enough, represented.wellFormed,
      sameValues_of_eval represents represented roots same, fun left h D k offered => ?_⟩
    obtain ⟨w, walked, -⟩ := Checked.bind_ok ran
    have answered : (Call.walk steps steps start 0 ⟨A, {}, 0⟩).Answered o verbosity := ⟨w, walked⟩
    exact live_of_offer (answered_inside answered offered)

theorem runPassTo_sound_negatedPair :
    ∃ B j, ({ rules := [Rule.wrapName, Rule.deMorgan] } : Optimizer).runPassTo .silent 9 Arena.negatedPair ⟨5⟩ =
      .ok (B, j) ∧ B.WellFormed ∧ SameValues Arena.negatedPair B := by
  have sound : ∀ rule ∈ [Rule.wrapName, Rule.deMorgan], rule.Sound := by
    intro rule member
    rcases List.mem_pair.mp member with rfl | rfl
    · exact Rule.wrapName_sound
    · exact Rule.sound_of_mem_builtin (by simp [Rule.builtin])
  have live : Arena.negatedPair.isLive ⟨5⟩ = .ok true := rfl
  have ends : ({ rules := [Rule.wrapName, Rule.deMorgan] } : Optimizer).runPassTo .silent 9 Arena.negatedPair ⟨5⟩ ≠
      .error .endless := by
    intro endless
    cases endless
  obtain ⟨B, j, ran, wellFormed, same, -⟩ :=
    runPassTo_sound Arena.negatedPair_wellFormed sound live .silent 9 ends
  exact ⟨B, j, ran 9 (Nat.le_refl 9), wellFormed, same⟩

end Optimizer

end Propositional
