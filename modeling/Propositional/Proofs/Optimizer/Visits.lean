import Propositional.Proofs.Arena.Walk
import Propositional.Proofs.Optimizer.Engine
import Propositional.Proofs.Optimizer.Growth

/-!
# What passes visit

An optimizer that does not settle its replacements makes at most one at each visit. With rules that
answer, and want only what can take the place of a node, its visits are the nodes that were there before
the pass, in their order.
-/

namespace Propositional

namespace Rule

variable {A : Arena} {C : Place} {t : Term} {rule : Rule}

/-- Where it may be asked, the rule answers, and what it wants there is admitted. -/
structure Proper (rule : Rule) : Prop where
  answers : ∀ {A h}, rule.MayAsk A h → rule.Declines A h ∨ ∃ c, rule.Proposes A h c
  admits : ∀ {A h c}, rule.MayAsk A h → rule.Proposes A h c → A.Admits h c

theorem Sound.proper (sound : rule.Sound) : rule.Proper := ⟨sound.answers, sound.admits⟩

theorem Proper.drafts (proper : rule.Proper) (represents : A.Represents (C.fill t))
    (target : rule.target = t.formula.variant) : rule.Declines A t.handle ∨
      ∃ d : Draft Term, rule.Proposes A t.handle d.candidate ∧ d.Within t ∧ d ≠ .moved t := by
  have asked := mayAsk_of_target represents target
  rcases proper.answers asked with declines | ⟨c, proposes⟩
  · exact Or.inl declines
  · obtain ⟨d, rfl, within, changes⟩ := represents.exists_draft (proper.admits asked proposes)
    exact Or.inr ⟨d, proposes, within, changes⟩

end Rule

namespace Optimizer

open Checked (bind_ok)

variable {o : Optimizer} {verbosity : Verbosity} {A B : Arena} {h start : Handle} {j k : Journal} {steps : Nat}

/-! ### One visit -/

theorem replacements_choose {rules : List Rule} {choice : Option (Rule × Candidate)}
    (chosen : choose verbosity A h j rules = .ok (choice, k)) : k.replacements = j.replacements := by
  induction rules generalizing j with
  | nil =>
    obtain ⟨-, rfl⟩ := Prod.mk.inj (Except.ok.inj chosen)
    rfl
  | cons rule later ih =>
    rw [choose] at chosen
    obtain ⟨appropriate, -, chosen⟩ := bind_ok chosen
    cases appropriate with
    | false => exact ih chosen
    | true =>
      obtain ⟨candidate, -, chosen⟩ := bind_ok chosen
      obtain ⟨accepted, -, chosen⟩ := bind_ok chosen
      cases accepted with
      | false => exact (ih chosen).trans (j.replacements_report _ _)
      | true =>
        obtain ⟨-, rfl⟩ := Prod.mk.inj (Except.ok.inj chosen)
        rfl

/-- A visit that settles nothing leaves the arena alone or makes one replacement, and counts it. -/
theorem visit_cases {replaced : Bool} (once : o.settle = false)
    (visited : o.visit verbosity steps h A j = .ok (replaced, B, k)) :
    replaced = false ∧ B = A ∧ k.replacements = j.replacements ∨
      replaced = true ∧ (∃ c fresh, A.substitute h c = .ok (fresh, B)) ∧ k.replacements = j.replacements + 1 := by
  obtain ⟨⟨D, later⟩, offered, answered⟩ := bind_ok visited
  obtain ⟨rfl, rfl, rfl⟩ : (later.replacements ≠ j.replacements : Bool) = replaced ∧ D = B ∧ later = k := by
    simpa [pure, Except.pure] using answered
  cases steps with
  | zero => cases offered
  | succ steps =>
    rw [offerTo_succ] at offered
    obtain ⟨parent, -, offered⟩ := bind_ok offered
    cases parent with
    | none =>
      obtain ⟨rfl, rfl⟩ := Prod.mk.inj (Except.ok.inj offered)
      exact Or.inl ⟨by simp, rfl, rfl⟩
    | some parent =>
      obtain ⟨variant, -, offered⟩ := bind_ok offered
      obtain ⟨⟨choice, k'⟩, chosen, offered⟩ := bind_ok offered
      have same := replacements_choose chosen
      cases choice with
      | none =>
        obtain ⟨rfl, rfl⟩ := Prod.mk.inj (Except.ok.inj offered)
        exact Or.inl ⟨by simp [same], rfl, same⟩
      | some choice =>
        obtain ⟨done, replaced, offered⟩ := bind_ok offered
        obtain ⟨substituted, counted⟩ := substitute_of_replaceWith replaced
        rw [once, if_neg (by simp)] at offered
        obtain ⟨rfl, rfl⟩ := Prod.mk.inj (Except.ok.inj offered)
        rw [same] at counted
        exact Or.inr ⟨by simp [counted], ⟨_, _, substituted⟩, counted⟩

/-- With proper rules, a visit answers and leaves the arena alone or replaces the node. -/
theorem visit_tame (once : o.settle = false) (proper : ∀ rule ∈ o.rules, rule.Proper) (verbosity : Verbosity)
    (steps : Nat) : Arena.Tame (o.visit verbosity (steps + 1)) := by
  intro h A j wellFormed live
  obtain ⟨n, held⟩ := Arena.cell?_of_isLive live
  obtain ⟨trees, represents⟩ := wellFormed.exists_represents
  rcases represents.locate_cell held with ⟨-, unheld, -⟩ | ⟨C, t, rfl, rfl, rfl⟩
  · refine ⟨false, A, j, ?_, Or.inl rfl⟩
    rw [visit, offerTo_succ, offerWith, Arena.parent_of_cell? held, unheld]
    simp [bind, Except.bind, pure, Except.pure]
  · have variant := Arena.variant_of_cell? represents.holds.top
    rw [t.variant_shape] at variant
    have drafts : ∀ rule ∈ o.rulesFor t.formula.variant, rule.Declines A t.handle ∨
        ∃ d : Draft Term, rule.Proposes A t.handle d.candidate ∧ d.Within t ∧ d ≠ .moved t := by
      intro rule member
      obtain ⟨listed, target⟩ := List.mem_filter.mp member
      exact (proper rule listed).drafts represents (by simpa using target)
    obtain ⟨choice, k, chosen, which⟩ := choose_answers drafts verbosity j
    rw [visit, offerTo_succ, offerWith, Arena.parent_of_cell? held]
    simp only [bind, Except.bind, variant, chosen]
    rcases which with rfl | ⟨rule, d, rfl, within, changes⟩
    · exact ⟨_, A, k, rfl, Or.inl rfl⟩
    · obtain ⟨done, s, replaced, -, represented, roots, -⟩ :=
        replaceWith_ok represents within changes verbosity rule k
      simp only [replaced, once, Bool.false_eq_true, if_false]
      exact ⟨_, done.arena, done.journal, rfl, Or.inr ⟨s.handle, represents.replaces represented roots⟩⟩

/-! ### Counting -/

theorem visit_counts (once : o.settle = false) {w w' : Arena.Walk Journal}
    (visited : w.visit (o.visit verbosity steps) h = .ok w') :
    w'.notes.replacements + w.replaced = w.notes.replacements + w'.replaced := by
  obtain ⟨⟨replaced, B, k⟩, attempted, answered⟩ := bind_ok visited
  obtain rfl := Except.ok.inj answered
  rcases visit_cases once attempted with ⟨rfl, -, counted⟩ | ⟨rfl, -, counted⟩
  · simp [counted]
  · simp [counted]
    omega

/-- A walk that settles nothing has counted as many replacements as visits that made one. -/
theorem fromSlot_counts (once : o.settle = false) {fuel slot : Nat} {w w' : Arena.Walk Journal}
    (walked : Arena.Walk.fromSlot (o.visit verbosity steps) fuel h slot w = .ok w') :
    w'.notes.replacements + w.replaced = w.notes.replacements + w'.replaced := by
  induction fuel generalizing h slot w w' with
  | zero => cases walked
  | succ fuel ih =>
    rw [Arena.Walk.fromSlot] at walked
    obtain ⟨child, -, walked⟩ := bind_ok walked
    cases child with
    | none => exact visit_counts once walked
    | some child =>
      obtain ⟨w₁, below, walked⟩ := bind_ok walked
      have first := ih below
      have second := ih walked
      omega

/-! ### Walks and passes -/

/-- A walk from a live node visits the nodes that were in its subtree, each after its children, whatever
the visits replace. In particular a pass that settles nothing makes at most one replacement at each of
them. -/
theorem walk_postorder (wellFormed : A.WellFormed) (live : A.isLive start = .ok true) :
    ∃ order, A.postorder start = .ok order ∧ order.Nodup ∧ (∀ h, h ∈ order ↔ A.InSubtree start h) ∧
      (∀ (τ : Type) (attempt : Arena.Visit τ) (notes : τ), Arena.Behaves attempt order A notes →
        ∃ w log, A.Walks attempt start notes order w log) ∧
      (∀ (τ : Type) (attempt : Arena.Visit τ) (notes : τ), Arena.Tame attempt →
        Arena.Behaves attempt order A notes) ∧
      ∀ (o : Optimizer) (verbosity : Verbosity), o.settle = false → (∀ rule ∈ o.rules, rule.Proper) →
        ∃ w log j, A.Walks (o.visit verbosity A.patience) start {} order w log ∧
          o.runPass verbosity A start = .ok (w.arena, j) ∧
          (∀ v ∈ log, v.replaced = false ∧ v.after = v.before ∨
            v.replaced = true ∧ ∃ c fresh, v.before.substitute v.handle c = .ok (fresh, v.after)) ∧
          j.replacements = log.countP Arena.Visited.replaced ∧ j.replacements ≤ order.length := by
  obtain ⟨order, ordered⟩ := wellFormed.exists_ordered live
  refine ⟨order, ordered.listed, ordered.nodup, ordered.mem_iff, fun τ attempt notes => ordered.exists_walks,
    fun τ attempt notes => ordered.behaves notes, ?_⟩
  intro o verbosity once proper
  obtain ⟨steps, enough⟩ : ∃ steps, A.patience = steps + 1 :=
    ⟨A.patience - 1, by have := A.live_lt_patience; omega⟩
  have tame : Arena.Tame (o.visit verbosity A.patience) := by
    rw [enough]
    exact visit_tame once proper verbosity steps
  obtain ⟨w, log, walks⟩ := ordered.exists_walks (ordered.behaves ({} : Journal) tame)
  have walked : Arena.Walk.fromSlot (o.visit verbosity A.patience) A.patience start 0 ⟨A, {}, 0⟩ = .ok w :=
    walks.answers
  have counted : w.notes.replacements = w.replaced := by
    simpa using fromSlot_counts once walked
  obtain ⟨j, ran, noted⟩ : ∃ j, o.runPass verbosity A start = .ok (w.arena, j) ∧
      j.replacements = w.notes.replacements := by
    rw [runPass, runPassTo, Arena.walkTo, walked]
    exact ⟨_, rfl, Journal.replacements_report _ _ _⟩
  have total : j.replacements = log.countP Arena.Visited.replaced := by
    rw [noted, counted, walks.counted]
  refine ⟨w, log, j, walks, ran, ?_, total, ?_⟩
  · intro v member
    obtain ⟨j, k, made⟩ := walks.tour.made v member
    rcases visit_cases once made with ⟨idle, same, -⟩ | ⟨replaced, substituted, -⟩
    · exact Or.inl ⟨idle, same⟩
    · exact Or.inr ⟨replaced, substituted⟩
  · rw [total, ← walks.tour.handles, List.length_map]
    exact List.countP_le_length

/-- Visits that count themselves and put a disjunction in the place of one node. -/
def widenThird : Arena.Visit Nat := fun h A visits => do
  if h = ⟨3⟩ then
    let (_, B) ← A.substitute h (.binary .or (.existing ⟨1⟩) (.literal false))
    return (true, B, visits + 1)
  else return (false, A, visits + 1)

theorem widenThird_behaves :
    Arena.Behaves widenThird [⟨1⟩, ⟨2⟩, ⟨3⟩, ⟨4⟩, ⟨5⟩] Arena.negatedPair 0 := by
  obtain ⟨fresh, B, top, substituted, replaces⟩ :=
    Arena.substitute_replaces Arena.negatedPair_wellFormed rfl Arena.negatedPair_admits
  have widened : widenThird ⟨3⟩ Arena.negatedPair 2 = .ok (true, B, 3) := by
    rw [widenThird, if_pos rfl, substituted]
    rfl
  refine ⟨false, _, _, rfl, Or.inl rfl, false, _, _, rfl, Or.inl rfl, true, B, 3, widened, Or.inr ⟨top, replaces⟩, ?_⟩
  exact ⟨false, _, _, rfl, Or.inl rfl, false, _, _, rfl, Or.inl rfl, trivial⟩

theorem walk_postorder_negatedPair :
    (∃ w log, Arena.negatedPair.Walks widenThird ⟨5⟩ 0 [⟨1⟩, ⟨2⟩, ⟨3⟩, ⟨4⟩, ⟨5⟩] w log ∧ w.replaced = 1) ∧
    ∃ B j, ({ settle := false } : Optimizer).runPass .silent Arena.negatedPair ⟨5⟩ = .ok (B, j) ∧
      j.replacements ≤ 5 := by
  have live : Arena.negatedPair.isLive ⟨5⟩ = .ok true := rfl
  obtain ⟨order, listed, -, -, walks, -, passes⟩ := walk_postorder Arena.negatedPair_wellFormed live
  obtain rfl : [⟨1⟩, ⟨2⟩, ⟨3⟩, ⟨4⟩, ⟨5⟩] = order := Except.ok.inj listed
  obtain ⟨w, log, walked⟩ := walks Nat widenThird 0 widenThird_behaves
  have counted : (Arena.negatedPair.walkTo widenThird 12 ⟨5⟩ 0).map Arena.Walk.replaced = .ok 1 := by
    decide +kernel
  rw [walked.ends 12 (by decide)] at counted
  obtain ⟨w', log', j, -, ran, -, -, few⟩ := passes { settle := false } .silent rfl
    (fun rule library => (Rule.sound_of_mem_builtin library).proper)
  exact ⟨⟨w, log, walked, Except.ok.inj counted⟩, w'.arena, j, ran, few⟩

end Optimizer

end Propositional
