import Propositional.Proofs.Optimizer.Termination

/-!
# Calls inside a run

Passes walk, walks go on and visit nodes, a visit offers its node, and an offer that replaces its node
offers others to settle the replacement. A call has an answer only if every call that it makes has one,
and an offer has one only if its node is live. So a run without a fault offers live nodes only.
-/

namespace Propositional.Optimizer

open Checked (bind_ok)

/-- What an optimizer is asked on the way. -/
inductive Call where
  | offer (steps : Nat) (h : Handle) (state : Arena × Journal)
  | walk (steps fuel : Nat) (h : Handle) (slot : Nat) (w : Arena.Walk Journal)
  | untilStable (start : Handle) (left passes : Nat) (state : Arena × Journal)

/-- A pass, as the walk that it is. -/
def Call.pass (A : Arena) (start : Handle) : Call := .walk A.patience A.patience start 0 ⟨A, {}, 0⟩

def Call.Answered (o : Optimizer) (verbosity : Verbosity) : Call → Prop
  | offer steps h state => ∃ r, o.offerTo verbosity steps h state = .ok r
  | walk steps fuel h slot w => ∃ r, Arena.Walk.fromSlot (o.visit verbosity steps) fuel h slot w = .ok r
  | untilStable start left passes state => ∃ r, o.passesUntilStable verbosity start left passes state = .ok r

def Replaces (o : Optimizer) (verbosity : Verbosity) (h : Handle) (A : Arena) (j : Journal)
    (done : Replacement) : Prop :=
  ∃ parent variant rule candidate k, A.parent h = .ok (some parent) ∧ A.variant h = .ok variant ∧
    choose verbosity A h j (o.rulesFor variant) = .ok (some (rule, candidate), k) ∧
    replaceWith verbosity A parent h rule candidate k = .ok done

/-- The new nodes up to some point have been offered one after the other. -/
def Settles (o : Optimizer) (verbosity : Verbosity) (steps : Nat) (done : Replacement) (nodes : List Handle)
    (state : Arena × Journal) : Prop :=
  nodes.foldlM (fun state h => offerFresh (o.offerTo verbosity steps) h state) (done.arena, done.journal) =
    .ok state

inductive Makes (o : Optimizer) (verbosity : Verbosity) : Call → Call → Prop where
  | fresh {steps h A j done before node after state} (replaces : o.Replaces verbosity h A j done)
      (settling : o.settle = true) (new : done.fresh = before ++ node :: after)
      (settled : o.Settles verbosity steps done before state) :
      Makes o verbosity (.offer (steps + 1) h (A, j)) (.offer steps node state)
  | moved {steps h A j done state} (replaces : o.Replaces verbosity h A j done) (settling : o.settle = true)
      (old : done.after ∉ done.fresh) (settled : o.Settles verbosity steps done done.fresh state) :
      Makes o verbosity (.offer (steps + 1) h (A, j)) (.offer steps done.after state)
  | down {steps fuel h slot w node} (child : w.arena.child h slot = .ok (some node)) :
      Makes o verbosity (.walk steps (fuel + 1) h slot w) (.walk steps fuel node 0 w)
  | across {steps fuel h slot w node w'} (child : w.arena.child h slot = .ok (some node))
      (below : Arena.Walk.fromSlot (o.visit verbosity steps) fuel node 0 w = .ok w') :
      Makes o verbosity (.walk steps (fuel + 1) h slot w) (.walk steps fuel h (slot + 1) w')
  | visit {steps fuel h slot w} (last : w.arena.child h slot = .ok none) :
      Makes o verbosity (.walk steps (fuel + 1) h slot w) (.offer steps h (w.arena, w.notes))
  | pass {start left passes A j} : Makes o verbosity (.untilStable start (left + 1) passes (A, j)) (.pass A start)
  | again {start left passes A j B k} (ran : o.runPass verbosity A start = .ok (B, k))
      (changed : k.replacements ≠ 0) : Makes o verbosity (.untilStable start (left + 1) passes (A, j))
        (.untilStable start left (passes + 1) (B, j.append k))

variable {o : Optimizer} {verbosity : Verbosity} {A : Arena} {j : Journal} {h : Handle} {done : Replacement}
  {steps : Nat} {call later : Call}

theorem offerTo_of_replaces (replaces : o.Replaces verbosity h A j done) (settling : o.settle = true) (steps : Nat) :
    o.offerTo verbosity (steps + 1) h (A, j) = (do
      let settled ← done.fresh.foldlM (fun state h => offerFresh (o.offerTo verbosity steps) h state)
        (done.arena, done.journal)
      if done.fresh.contains done.after then return settled
      else o.offerTo verbosity steps done.after settled) := by
  obtain ⟨parent, variant, rule, candidate, k, named, sort, chosen, replaced⟩ := replaces
  rw [offerTo_succ, offerWith, named]
  simp only [bind, Except.bind, sort, chosen, replaced, settling, if_true]

theorem answered_of_makes (answered : call.Answered o verbosity) (makes : Makes o verbosity call later) :
    later.Answered o verbosity := by
  cases makes with
  | fresh replaces settling new settled =>
    obtain ⟨r, offered⟩ := answered
    rw [offerTo_of_replaces replaces settling, new, List.foldlM_append] at offered
    obtain ⟨all, folded, -⟩ := bind_ok offered
    -- Settling all new nodes goes through this one, in the state that those before it leave.
    obtain ⟨reached, earlier, folded⟩ := bind_ok folded
    obtain rfl := Except.ok.inj (settled.symm.trans earlier)
    rw [List.foldlM_cons] at folded
    obtain ⟨next, first, -⟩ := bind_ok folded
    obtain ⟨live, read, first⟩ := bind_ok first
    cases live with
    | true => exact ⟨next, first⟩
    | false => cases first
  | moved replaces settling old settled =>
    obtain ⟨r, offered⟩ := answered
    rw [offerTo_of_replaces replaces settling, settled] at offered
    refine ⟨r, ?_⟩
    simpa [bind, Except.bind, old] using offered
  | down child =>
    obtain ⟨r, walked⟩ := answered
    obtain ⟨found, read, walked⟩ := bind_ok walked
    obtain rfl := Except.ok.inj (child.symm.trans read)
    obtain ⟨w', below, -⟩ := bind_ok walked
    exact ⟨w', below⟩
  | across child below =>
    obtain ⟨r, walked⟩ := answered
    rw [Arena.Walk.fromSlot, child] at walked
    exact ⟨r, by simpa [bind, Except.bind, below] using walked⟩
  | visit last =>
    obtain ⟨r, walked⟩ := answered
    obtain ⟨found, read, walked⟩ := bind_ok walked
    obtain rfl := Except.ok.inj (last.symm.trans read)
    obtain ⟨answer, visited, -⟩ := bind_ok walked
    obtain ⟨state, offered, -⟩ := bind_ok visited
    exact ⟨state, offered⟩
  | pass =>
    obtain ⟨r, stable⟩ := answered
    obtain ⟨answer, ran, -⟩ := bind_ok stable
    obtain ⟨w, walked, -⟩ := bind_ok ran
    exact ⟨w, walked⟩
  | again ran changed =>
    obtain ⟨r, stable⟩ := answered
    rw [passesUntilStable, ran] at stable
    refine ⟨r, ?_⟩
    simpa [bind, Except.bind, changed] using stable

theorem answered_inside (answered : call.Answered o verbosity)
    (inside : Relation.ReflTransGen (Makes o verbosity) call later) : later.Answered o verbosity := by
  induction inside with
  | refl => exact answered
  | tail _ makes ih => exact answered_of_makes ih makes

theorem exists_offer_of_walk {fuel slot : Nat} {w r : Arena.Walk Journal}
    (walked : Arena.Walk.fromSlot (o.visit verbosity steps) fuel h slot w = .ok r) :
    ∃ state, Relation.ReflTransGen (Makes o verbosity) (.walk steps fuel h slot w) (.offer steps h state) := by
  induction fuel generalizing slot w with
  | zero => cases walked
  | succ fuel ih =>
    obtain ⟨child, read, walked⟩ := bind_ok walked
    cases child with
    | none => exact ⟨_, .single (.visit read)⟩
    | some node =>
      obtain ⟨w', below, walked⟩ := bind_ok walked
      obtain ⟨state, later⟩ := ih walked
      exact ⟨state, .head (.across read below) later⟩

theorem live_of_offer (answered : (Call.offer steps h (A, j)).Answered o verbosity) : A.isLive h = .ok true := by
  obtain ⟨r, offered⟩ := answered
  cases steps with
  | zero => cases offered
  | succ steps =>
    obtain ⟨parent, named, -⟩ := bind_ok offered
    obtain ⟨n, held, -⟩ := Arena.cell?_of_parent named
    exact Arena.isLive_of_cell? held

end Propositional.Optimizer
