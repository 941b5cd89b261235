import Propositional.Proofs.Optimizer.Termination

/-!
# Arenas do not shrink

Nodes are given up by vacating their cells, so an arena has no fewer cells after an operation than before.
A handle that once led to a node leads to a cell ever after, to one that may be vacant or hold another node.
-/

namespace Propositional

namespace Table

variable {α : Type} {t t' : Table α} {i : Nat} {v : α}

theorem size_of_set (written : t.set i v = .ok t') : t'.size = t.size := by
  unfold set at written
  cases found : t.entry i with
  | error fault => simp [found, bind, Except.bind] at written
  | ok content =>
    cases content with
    | vacant next => simp [found, bind, Except.bind] at written
    | holding old =>
      obtain rfl : t.put i (.holding v) = t' := by simpa [found, bind, Except.bind, pure, Except.pure] using written
      exact size_put t i _

theorem size_of_drop (dropped : t.drop i = .ok (v, t')) : t'.size = t.size := by
  unfold drop at dropped
  cases found : t.entry i with
  | error fault => simp [found, bind, Except.bind] at dropped
  | ok content =>
    cases content with
    | vacant next => simp [found, bind, Except.bind] at dropped
    | holding old =>
      obtain ⟨rfl, rfl⟩ : old = v ∧ { t.put i (.vacant t.head) with head := i, count := t.count - 1 } = t' := by
        simpa [found, bind, Except.bind, pure, Except.pure] using dropped
      exact size_put t i _

theorem size_le_add (t : Table α) (v : α) : t.size ≤ (t.add v).2.size := by
  unfold add
  split
  · simp [size]
  · exact Nat.le_of_eq (size_put t _ _).symm

end Table

namespace Arena

variable {A B : Arena} {h : Handle} {fresh : List Handle}

open Checked (bind_ok ofTable_ok foldlM_grows)

theorem setNode_grows {n : Node} (written : A.setNode h n = .ok B) : A.bound ≤ B.bound := by
  obtain ⟨table, set, same⟩ := bind_ok written
  obtain rfl := Except.ok.inj same
  exact Nat.succ_le_succ (Nat.le_of_eq (Table.size_of_set (ofTable_ok set)).symm)

theorem setParent_grows {p : Option Handle} (written : A.setParent h p = .ok B) : A.bound ≤ B.bound := by
  obtain ⟨n, -, written⟩ := bind_ok written
  exact setNode_grows written

theorem setChild_grows {slot : Nat} {child : Handle} (written : A.setChild h slot child = .ok B) :
    A.bound ≤ B.bound := by
  obtain ⟨n, -, written⟩ := bind_ok written
  cases retargeted : n.shape.setChild? slot child with
  | none => simp [retargeted] at written
  | some shape =>
    simp only [retargeted] at written
    obtain ⟨A₁, first, second⟩ := bind_ok written
    exact Nat.le_trans (setNode_grows first) (setParent_grows second)

theorem take_grows {n : Node} (taken : A.take h = .ok (n, B)) : A.bound ≤ B.bound := by
  obtain ⟨⟨m, table⟩, dropped, same⟩ := bind_ok taken
  obtain ⟨rfl, rfl⟩ := Prod.mk.inj (Except.ok.inj same)
  exact Nat.succ_le_succ (Nat.le_of_eq (Table.size_of_drop (ofTable_ok dropped)).symm)

theorem add_grows {shape : Shape Handle} (added : A.add shape = .ok (h, B)) : A.bound ≤ B.bound := by
  obtain ⟨A₁, adopted, same⟩ := bind_ok added
  obtain ⟨-, rfl⟩ := Prod.mk.inj (Except.ok.inj same)
  have stored : A.bound ≤ bound { A with table := (A.table.add { shape }).2 } :=
    Nat.succ_le_succ (A.table.size_le_add { shape })
  exact Nat.le_trans stored (foldlM_grows (fun _ _ _ => setParent_grows) adopted)

theorem addBinary_grows {op : Connective} {left right : Handle} (added : A.addBinary op left right = .ok (h, B)) :
    A.bound ≤ B.bound := by
  unfold addBinary at added
  split at added
  · simp at added
  · exact add_grows added

theorem graft_grows {c : Candidate} (grafted : A.graft c = .ok (h, fresh, B)) : A.bound ≤ B.bound := by
  induction c generalizing A B h fresh with
  | existing k =>
    obtain ⟨live, -, grafted⟩ := bind_ok grafted
    cases live with
    | false => simp at grafted
    | true =>
      obtain ⟨-, -, rfl⟩ : k = h ∧ [] = fresh ∧ A = B := by
        simpa [pure, Except.pure] using grafted
      exact Nat.le_refl _
  | binary op left right ihl ihr =>
    obtain ⟨⟨l, freshLeft, A₁⟩, first, grafted⟩ := bind_ok grafted
    obtain ⟨⟨r, freshRight, A₂⟩, second, grafted⟩ := bind_ok grafted
    obtain ⟨⟨k, A₃⟩, added, same⟩ := bind_ok grafted
    obtain ⟨-, -, rfl⟩ : k = h ∧ freshLeft ++ freshRight ++ [k] = fresh ∧ A₃ = B := by
      simpa [pure, Except.pure] using same
    exact Nat.le_trans (ihl first) (Nat.le_trans (ihr second) (addBinary_grows added))
  | not operand ih | parens inner ih =>
    obtain ⟨⟨l, below, A₁⟩, first, grafted⟩ := bind_ok grafted
    obtain ⟨⟨k, A₂⟩, added, same⟩ := bind_ok grafted
    obtain ⟨-, -, rfl⟩ : k = h ∧ below ++ [k] = fresh ∧ A₂ = B := by
      simpa [pure, Except.pure] using same
    exact Nat.le_trans (ih first) (add_grows added)
  | id name | literal value =>
    obtain ⟨⟨k, A₁⟩, added, same⟩ := bind_ok grafted
    obtain ⟨-, -, rfl⟩ : k = h ∧ [k] = fresh ∧ A₁ = B := by
      simpa [pure, Except.pure] using same
    exact add_grows added

theorem releaseTo_grows {depth : Nat} (released : releaseTo depth A h = .ok B) : A.bound ≤ B.bound := by
  induction depth generalizing A B h with
  | zero => simp [releaseTo] at released
  | succ depth ih =>
    obtain ⟨⟨n, A₁⟩, taken, released⟩ := bind_ok released
    obtain ⟨owned, -, released⟩ := bind_ok released
    exact Nat.le_trans (take_grows taken) (foldlM_grows (fun _ _ _ => ih) released)

theorem substitute_grows {c : Candidate} (replaced : A.substitute h c = .ok (fresh, B)) : A.bound ≤ B.bound := by
  obtain ⟨parent, -, replaced⟩ := bind_ok replaced
  obtain ⟨slot, -, replaced⟩ := bind_ok replaced
  obtain ⟨⟨top, new, A₁⟩, grafted, replaced⟩ := bind_ok replaced
  simp only at replaced
  split at replaced
  · simp [throw, throwThe, MonadExceptOf.throw, bind, Except.bind] at replaced
  obtain ⟨A₂, placed, replaced⟩ := bind_ok replaced
  obtain ⟨above, -, replaced⟩ := bind_ok replaced
  have grown := Nat.le_trans (graft_grows grafted) (setChild_grows placed)
  split at replaced
  · obtain ⟨A₃, released, same⟩ := bind_ok replaced
    obtain ⟨-, rfl⟩ := Prod.mk.inj (Except.ok.inj same)
    exact Nat.le_trans grown (releaseTo_grows released)
  · obtain ⟨-, rfl⟩ := Prod.mk.inj (Except.ok.inj replaced)
    exact grown

end Arena

namespace Optimizer

open Checked (bind_ok bind_ok_of_either foldlM_grows)

variable {o : Optimizer} {verbosity : Verbosity} {A B : Arena} {h : Handle} {j k : Journal}

theorem substitute_of_replaceWith {parent : Handle} {rule : Rule} {candidate : Candidate} {done : Replacement}
    (replaced : replaceWith verbosity A parent h rule candidate j = .ok done) :
    A.substitute h candidate = .ok (done.fresh, done.arena) ∧ done.journal.replacements = j.replacements + 1 := by
  obtain ⟨children, -, replaced⟩ := bind_ok replaced
  obtain ⟨before, replaced⟩ := bind_ok_of_either replaced
  obtain ⟨⟨fresh, B⟩, substituted, replaced⟩ := bind_ok replaced
  obtain ⟨child, -, replaced⟩ := bind_ok replaced
  cases child with
  | none => simp at replaced
  | some after =>
    obtain ⟨text, same⟩ := bind_ok_of_either replaced
    obtain rfl := Except.ok.inj same
    exact ⟨substituted, Journal.replacements_report _ _ _⟩

theorem offerWith_grows {again : Handle → Arena × Journal → Checked (Arena × Journal)}
    (grows : ∀ h s r, again h s = .ok r → s.1.bound ≤ r.1.bound)
    (offered : o.offerWith verbosity again h A j = .ok (B, k)) : A.bound ≤ B.bound := by
  obtain ⟨parent, -, offered⟩ := bind_ok offered
  cases parent with
  | none =>
    obtain ⟨rfl, -⟩ := Prod.mk.inj (Except.ok.inj offered)
    exact Nat.le_refl _
  | some parent =>
    obtain ⟨variant, -, offered⟩ := bind_ok offered
    obtain ⟨⟨choice, chosen⟩, -, offered⟩ := bind_ok offered
    cases choice with
    | none =>
      obtain ⟨rfl, -⟩ := Prod.mk.inj (Except.ok.inj offered)
      exact Nat.le_refl _
    | some choice =>
      obtain ⟨done, replaced, offered⟩ := bind_ok offered
      have grown := Arena.substitute_grows (substitute_of_replaceWith replaced).1
      split at offered
      · obtain ⟨settled, folded, offered⟩ := bind_ok offered
        have fresh : ∀ s h r, offerFresh again h s = .ok r → s.1.bound ≤ r.1.bound := by
          intro s h r answered
          obtain ⟨live, -, answered⟩ := bind_ok answered
          cases live with
          | true => exact grows h s r answered
          | false => simp at answered
        have grown := Nat.le_trans grown (foldlM_grows (f := fun s : Arena × Journal => s.1.bound) fresh folded)
        split at offered
        · obtain rfl := Except.ok.inj offered
          exact grown
        · exact Nat.le_trans grown (grows _ _ _ offered)
      · obtain ⟨rfl, -⟩ := Prod.mk.inj (Except.ok.inj offered)
        exact grown

theorem offerTo_grows {steps : Nat} {s r : Arena × Journal} (offered : o.offerTo verbosity steps h s = .ok r) :
    s.1.bound ≤ r.1.bound := by
  induction steps generalizing h s r with
  | zero => simp [offerTo] at offered
  | succ steps ih =>
    obtain ⟨A, j⟩ := s
    rw [offerTo_succ] at offered
    exact offerWith_grows (fun _ _ _ => ih) offered

theorem fromSlot_grows {steps fuel slot : Nat} {w w' : Arena.Walk Journal}
    (walked : Arena.Walk.fromSlot (o.visit verbosity steps) fuel h slot w = .ok w') :
    w.arena.bound ≤ w'.arena.bound := by
  induction fuel generalizing h slot w w' with
  | zero => simp [Arena.Walk.fromSlot] at walked
  | succ fuel ih =>
    obtain ⟨child, -, walked⟩ := bind_ok walked
    cases child with
    | some child =>
      obtain ⟨w₁, below, walked⟩ := bind_ok walked
      exact Nat.le_trans (ih below) (ih walked)
    | none =>
      obtain ⟨⟨replaced, B, k⟩, attempted, same⟩ := bind_ok walked
      obtain rfl := Except.ok.inj same
      obtain ⟨⟨B', k'⟩, offered, same⟩ := bind_ok attempted
      obtain ⟨-, same⟩ := Prod.mk.inj (Except.ok.inj same)
      obtain ⟨rfl, -⟩ := Prod.mk.inj same
      exact offerTo_grows offered

theorem runPass_grows {start : Handle} (ran : o.runPass verbosity A start = .ok (B, j)) : A.bound ≤ B.bound := by
  obtain ⟨w, walked, same⟩ := bind_ok ran
  obtain ⟨rfl, -⟩ := Prod.mk.inj (Except.ok.inj same)
  exact fromSlot_grows walked

end Optimizer

end Propositional
