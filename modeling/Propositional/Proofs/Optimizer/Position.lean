import Propositional.Proofs.Arena.Entry
import Propositional.Proofs.Optimizer.Growth

/-!
# Passes at a position

Passes at a position start from whatever stands there when they begin. A search for a stable tree starts
every pass from the node that it was given. The two do the same as long as this node stays at its position,
as a root always does. A pass may instead give the node up, since the node itself can be replaced: then
passes at the position still go on, and the search for a stable tree has a fault.
-/

namespace Propositional

/-- Where a subtree is. -/
inductive Position where
  | root (h : Handle)
  | slot (parent : Handle) (index : Nat)

def Position.occupant (A : Arena) : Position → Checked Handle
  | root h => do
    let _ ← A.rootChild h
    return h
  | slot parent index => do
    match ← A.child parent index with
    | some h => return h
    | none => throw (.noSlot parent index)

namespace Optimizer

open Checked (bind_ok)

/-- Passes over what stands at a position, until one replaces nothing or there have been too many. -/
def passesAt (o : Optimizer) (verbosity : Verbosity) (position : Position) :
    (left done : Nat) → Arena × Journal → Checked (Arena × Journal)
  | 0, done, (A, j) => return (A, j.report verbosity (.gaveUp done))
  | left + 1, done, (A, j) => do
    let start ← position.occupant A
    let (A, pass) ← o.runPass verbosity A start
    let j := j.append pass
    if pass.replacements = 0 then return (A, j.report verbosity (.stable (done + 1)))
    else o.passesAt verbosity position left (done + 1) (A, j)

/-- Whenever a pass from the node begins, of at most so many, the arena is as described. -/
def AtEachPass (o : Optimizer) (verbosity : Verbosity) (start : Handle) (P : Arena → Prop) : Nat → Arena → Prop
  | 0, _ => True
  | left + 1, A => P A ∧ ∀ B pass, o.runPass verbosity A start = .ok (B, pass) → pass.replacements ≠ 0 →
    AtEachPass o verbosity start P left B

variable {o : Optimizer} {verbosity : Verbosity} {A B : Arena} {pass : Journal} {C : Place} {t : Term}
  {trees : List Tree} {start : Handle} {position : Position} {laws : List Law}

/-! ### Positions and places -/

/-- The place is at the position, or right below it if that is a root. -/
def Fits (C : Place) : Position → Prop
  | .root h => C.grandparent = none ∧ C.parent = h
  | .slot parent index => C.parent = parent ∧ C.slot = index

theorem rootChild_ok {child : Handle} (read : A.rootChild start = .ok child) :
    A.shape start = .ok (.root child) := by
  obtain ⟨shape, found, read⟩ := bind_ok read
  cases shape with
  | root k => rw [found, Except.ok.inj read]
  | _ => simp at read

theorem exists_place_of_occupant (represents : A.Represents trees) (held : position.occupant A = .ok start) :
    ∃ C t, Place.fill C t = trees ∧ Fits C position ∧ Covers C t start := by
  cases position with
  | root h =>
    obtain ⟨child, read, same⟩ := bind_ok held
    obtain rfl := Except.ok.inj same
    obtain ⟨n, cell, shape⟩ := Arena.cell?_of_shape (rootChild_ok read)
    rcases represents.locate_cell cell with ⟨-, -, x, member, rfl⟩ | ⟨C, t, -, -, rfl⟩
    · obtain ⟨before, after, rfl⟩ := List.append_of_mem member
      exact ⟨.top before x.root after, x.body, rfl, ⟨rfl, rfl⟩, Or.inr ⟨rfl, rfl⟩⟩
    · exact absurd (congrArg Shape.variant shape) (Arena.Represents.variant_ne_root t)
  | slot parent index =>
    obtain ⟨child, read, same⟩ := bind_ok held
    cases child with
    | none => simp at same
    | some child =>
      obtain rfl := Except.ok.inj same
      obtain ⟨C, t, filled, rfl, above, there⟩ := represents.child_place read
      exact ⟨C, t, filled, ⟨above, there⟩, Or.inl rfl⟩

theorem exists_occupant (represents : A.Represents (C.fill t)) (fits : Fits C position) :
    ∃ start, position.occupant A = .ok start ∧ Covers C t start := by
  cases position with
  | root h =>
    obtain ⟨topmost, rfl⟩ := fits
    refine ⟨C.parent, ?_, Or.inr ⟨topmost, rfl⟩⟩
    rw [Position.occupant, Arena.rootChild, Arena.shape_of_cell? represents.holder]
    cases C with
    | top before h after => rfl
    | _ => simp [Place.grandparent] at topmost
  | slot parent index =>
    obtain ⟨rfl, rfl⟩ := fits
    refine ⟨t.handle, ?_, Or.inl rfl⟩
    rw [Position.occupant, Arena.child_of_cell? represents.holder, C.child?_shape]
    rfl

theorem live_of_covers (represents : A.Represents (C.fill t)) (covers : Covers C t start) :
    A.isLive start = .ok true := by
  rcases covers with rfl | ⟨-, rfl⟩
  · exact Arena.isLive_of_cell? represents.holds.top
  · exact Arena.isLive_of_cell? represents.holder

/-! ### Passes one after the other -/

theorem atEachPass_succ_iff {P : Arena → Prop} {left : Nat} (ran : o.runPass verbosity A start = .ok (B, pass)) :
    o.AtEachPass verbosity start P (left + 1) A ↔
      P A ∧ (pass.replacements ≠ 0 → o.AtEachPass verbosity start P left B) := by
  constructor
  · rintro ⟨now, later⟩
    exact ⟨now, later B pass ran⟩
  · rintro ⟨now, later⟩
    refine ⟨now, fun B' pass' ran' => ?_⟩
    obtain ⟨rfl, rfl⟩ := Prod.mk.inj (Except.ok.inj (ran.symm.trans ran'))
    exact later

theorem passesUntilStable_succ (ran : o.runPass verbosity A start = .ok (B, pass)) (left done : Nat)
    (j : Journal) :
    o.passesUntilStable verbosity start (left + 1) done (A, j) =
      if pass.replacements = 0 then .ok (B, (j.append pass).report verbosity (.stable (done + 1)))
      else o.passesUntilStable verbosity start left (done + 1) (B, j.append pass) := by
  rw [passesUntilStable, ran]
  rfl

theorem passesAt_answers (follows : List.Forall₂ Rule.Follows o.rules laws)
    (library : ∀ law ∈ laws, law ∈ Law.builtin) (represents : A.Represents (C.fill t)) (fits : Fits C position)
    (left done : Nat) (j : Journal) :
    ∃ B k, o.passesAt verbosity position left done (A, j) = .ok (B, k) ∧ B.WellFormed := by
  induction left generalizing A t done j with
  | zero => exact ⟨A, _, rfl, represents.wellFormed⟩
  | succ left ih =>
    obtain ⟨start, held, covers⟩ := exists_occupant represents fits
    obtain ⟨-, -, -, B, pass, s, ran, represented, -⟩ :=
      runPass_reaches follows library represents covers verbosity
    rw [passesAt, held]
    simp only [bind, Except.bind, ran]
    split
    · exact ⟨B, _, rfl, represented.wellFormed⟩
    · exact ih represented (done + 1) (j.append pass)

theorem passesUntilStable_eq_passesAt (left done : Nat) (j : Journal)
    (stays : o.AtEachPass verbosity start (fun B => position.occupant B = .ok start) left A) :
    o.passesUntilStable verbosity start left done (A, j) = o.passesAt verbosity position left done (A, j) := by
  induction left generalizing A done j with
  | zero => rfl
  | succ left ih =>
    obtain ⟨held, later⟩ := stays
    rw [passesUntilStable, passesAt, held]
    simp only [bind, Except.bind]
    cases ran : o.runPass verbosity A start with
    | error fault => rfl
    | ok r =>
      obtain ⟨B, pass⟩ := r
      by_cases idle : pass.replacements = 0
      · simp only [idle, if_true]
      · simp only [idle, if_false]
        exact ih (done + 1) (j.append pass) (later B pass ran idle)

theorem root_stays (follows : List.Forall₂ Rule.Follows o.rules laws)
    (library : ∀ law ∈ laws, law ∈ Law.builtin) (represents : A.Represents (C.fill t)) (left : Nat)
    (fits : Fits C (.root start)) :
    o.AtEachPass verbosity start (fun B => (Position.root start).occupant B = .ok start) left A := by
  induction left generalizing A t with
  | zero => trivial
  | succ left ih =>
    have covers : Covers C t start := Or.inr ⟨fits.1, fits.2.symm⟩
    obtain ⟨-, -, -, B, pass, s, ran, represented, -⟩ :=
      runPass_reaches follows library represents covers verbosity
    rw [atEachPass_succ_iff ran]
    constructor
    · obtain ⟨k, held, -⟩ := exists_occupant represents fits
      have named := held
      obtain ⟨-, -, same⟩ := bind_ok named
      rw [held, Except.ok.inj same]
    · intro _
      exact ih represented

/-! ### Nodes that are given up -/

theorem runPass_of_gone (inside : 1 ≤ start.index ∧ start.index < A.bound) (gone : A.isLive start ≠ .ok true) :
    o.runPass verbosity A start = .error (.cell (.vacant start.index)) := by
  have vacant : A.table.value? start.index = none := by
    by_contra held
    obtain ⟨n, held⟩ := Option.ne_none_iff_exists'.mp held
    exact gone (Arena.isLive_of_cell? held)
  have unread : A.child start 0 = .error (.cell (.vacant start.index)) := by
    have missing := Table.get_of_vacant ⟨inside.1, Nat.le_of_lt_succ inside.2⟩ vacant
    simp [Arena.child, Arena.shape, Arena.node, Checked.ofTable, missing, bind, Except.bind, Except.mapError]
  obtain ⟨steps, enough⟩ : ∃ steps, A.patience = steps + 1 :=
    Nat.exists_eq_add_one_of_ne_zero (Nat.pos_iff_ne_zero.mp (Nat.pow_pos (by omega)))
  rw [runPass, runPassTo, Arena.walkTo, enough, Arena.Walk.fromSlot, unread]
  rfl

theorem passesUntilStable_outcome (follows : List.Forall₂ Rule.Follows o.rules laws)
    (library : ∀ law ∈ laws, law ∈ Law.builtin) (represents : A.Represents trees)
    (inside : 1 ≤ start.index ∧ start.index < A.bound) (verbosity : Verbosity) (left done : Nat) (j : Journal) :
    (o.AtEachPass verbosity start (fun B => B.isLive start = .ok true) left A ∧
        ∃ r, o.passesUntilStable verbosity start left done (A, j) = .ok r) ∨
      ¬ o.AtEachPass verbosity start (fun B => B.isLive start = .ok true) left A ∧
        o.passesUntilStable verbosity start left done (A, j) = .error (.cell (.vacant start.index)) := by
  induction left generalizing A trees done j with
  | zero => exact Or.inl ⟨trivial, _, rfl⟩
  | succ left ih =>
    by_cases live : A.isLive start = .ok true
    · obtain ⟨C, t, rfl, covers⟩ := exists_covers represents live
      obtain ⟨-, -, -, B, pass, s, ran, represented, -⟩ :=
        runPass_reaches follows library represents covers verbosity
      rw [atEachPass_succ_iff ran, passesUntilStable_succ ran]
      by_cases idle : pass.replacements = 0
      · rw [if_pos idle]
        exact Or.inl ⟨⟨live, fun busy => absurd idle busy⟩, _, rfl⟩
      · rw [if_neg idle]
        -- The pass may have given the node up, but not its cell.
        have still := Nat.lt_of_lt_of_le inside.2 (runPass_grows ran)
        rcases ih represented ⟨inside.1, still⟩ (done + 1) (j.append pass) with
          ⟨stays, answered⟩ | ⟨leaves, fault⟩
        · exact Or.inl ⟨⟨live, fun _ => stays⟩, answered⟩
        · exact Or.inr ⟨fun each => leaves (each.2 idle), fault⟩
    · refine Or.inr ⟨fun each => live each.1, ?_⟩
      rw [passesUntilStable, runPass_of_gone inside live]
      rfl

/-- With rules of the library, passes at a position always answer. A search for a stable tree from the node
at the position does the same if that node is still there whenever a further pass begins, as a root is. It
answers if and only if the node is then live, and else meets the vacant cell of the node. -/
theorem runUntilStable_at (wellFormed : A.WellFormed) (library : ∀ rule ∈ o.rules, rule ∈ Rule.builtin)
    (held : position.occupant A = .ok start) (verbosity : Verbosity) :
    (∃ B j, o.passesAt verbosity position o.maxPasses 0 (A, {}) = .ok (B, j) ∧ B.WellFormed) ∧
    (o.AtEachPass verbosity start (fun B => position.occupant B = .ok start) o.maxPasses A →
      o.runUntilStable verbosity A start = o.passesAt verbosity position o.maxPasses 0 (A, {})) ∧
    (position = .root start →
      o.AtEachPass verbosity start (fun B => position.occupant B = .ok start) o.maxPasses A) ∧
    ((o.AtEachPass verbosity start (fun B => B.isLive start = .ok true) o.maxPasses A ∧
        ∃ r, o.runUntilStable verbosity A start = .ok r) ∨
      ¬ o.AtEachPass verbosity start (fun B => B.isLive start = .ok true) o.maxPasses A ∧
        o.runUntilStable verbosity A start = .error (.cell (.vacant start.index))) := by
  obtain ⟨trees, represents⟩ := wellFormed.exists_represents
  obtain ⟨laws, follows, members⟩ := exists_laws library
  obtain ⟨C, t, rfl, fits, covers⟩ := exists_place_of_occupant represents held
  obtain ⟨n, cell⟩ := Arena.cell?_of_isLive (live_of_covers represents covers)
  obtain ⟨positive, small⟩ := Table.inside_of_value? cell
  have inside : 1 ≤ start.index ∧ start.index < A.bound := ⟨positive, Nat.lt_succ_of_le small⟩
  refine ⟨?_, ?_, ?_, ?_⟩
  · exact passesAt_answers follows members represents fits o.maxPasses 0 {}
  · exact passesUntilStable_eq_passesAt o.maxPasses 0 {}
  · rintro rfl
    exact root_stays follows members represents o.maxPasses fits
  · exact passesUntilStable_outcome follows members represents inside verbosity o.maxPasses 0 {}

def folding : Optimizer where
  rules := [Rule.literalOperand]
  maxPasses := 2

theorem runUntilStable_at_negatedPair : ∃ B j,
    folding.runUntilStable .silent Arena.negatedPair ⟨4⟩ = .ok (B, j) ∧
    folding.passesAt .silent (.slot ⟨5⟩ 0) 2 0 (Arena.negatedPair, {}) = .ok (B, j) ∧ B.WellFormed := by
  have held : (Position.slot ⟨5⟩ 0).occupant Arena.negatedPair = .ok ⟨4⟩ := rfl
  have library : ∀ rule ∈ folding.rules, rule ∈ Rule.builtin := by simp [folding, Rule.builtin]
  obtain ⟨⟨B, j, answered, wellFormed⟩, same, -⟩ :=
    runUntilStable_at Arena.negatedPair_wellFormed library held .silent
  have stays : (folding.runPass .silent Arena.negatedPair ⟨4⟩ >>= fun r =>
      (Position.slot ⟨5⟩ 0).occupant r.1) = .ok ⟨4⟩ := by decide +kernel
  obtain ⟨⟨D, pass⟩, ran, stays⟩ := bind_ok stays
  have each : folding.AtEachPass .silent ⟨4⟩ (fun B => (Position.slot ⟨5⟩ 0).occupant B = .ok ⟨4⟩) 2
      Arena.negatedPair := by
    rw [atEachPass_succ_iff ran]
    exact ⟨held, fun _ => ⟨stays, fun _ _ _ _ => trivial⟩⟩
  exact ⟨B, j, (same each).trans answered, answered, wellFormed⟩

/-- The first pass over the conjunction puts its operand in its place. A second one at that position replaces
nothing, but the search for a stable tree looks for the conjunction. -/
theorem runUntilStable_given_up : ∃ A, ({} : Arena).enter "x AND TRUE" = .ok (.ok ⟨4⟩, A) ∧ A.WellFormed ∧
    (Position.slot ⟨4⟩ 0).occupant A = .ok ⟨3⟩ ∧
    ({} : Optimizer).runUntilStable .silent A ⟨3⟩ = .error (.cell (.vacant 3)) ∧
    ∃ B j, ({} : Optimizer).passesAt .silent (.slot ⟨4⟩ 0) 16 0 (A, {}) = .ok (B, j) ∧ j.replacements = 1 ∧
      B.display ⟨4⟩ = .ok "x" := by
  have read : Formula.read "x AND TRUE" = .ok (.binary .and (.id "x") (.literal true)) := by decide +kernel
  obtain ⟨⟨root, t⟩, A, entered, -, represents, -⟩ := Arena.represents_empty.enter_ok read
  have named : (({} : Arena).enter "x AND TRUE").map Prod.fst = .ok (.ok ⟨4⟩) := by decide +kernel
  have held : (({} : Arena).enter "x AND TRUE" >>= fun r => (Position.slot ⟨4⟩ 0).occupant r.2) = .ok ⟨3⟩ := by
    decide +kernel
  have searched : (({} : Arena).enter "x AND TRUE" >>= fun r =>
      (({} : Optimizer).runUntilStable .silent r.2 ⟨3⟩).map Prod.snd) = .error (.cell (.vacant 3)) := by
    decide +kernel
  have passed : (({} : Arena).enter "x AND TRUE" >>= fun r =>
      ({} : Optimizer).passesAt .silent (.slot ⟨4⟩ 0) 16 0 (r.2, {}) >>= fun s =>
        return (s.2.replacements, ← s.1.display ⟨4⟩)) = .ok (1, "x") := by decide +kernel
  rw [entered] at named
  obtain rfl : root = ⟨4⟩ := by simpa [Except.map] using named
  rw [entered, Checked.ok_bind] at held searched passed
  refine ⟨A, entered, represents.wellFormed, held, ?_, ?_⟩
  · cases outcome : ({} : Optimizer).runUntilStable .silent A ⟨3⟩ with
    | error fault => simpa [outcome, Except.map] using searched
    | ok r => simp [outcome, Except.map] at searched
  · obtain ⟨⟨B, j⟩, answered, rest⟩ := bind_ok passed
    obtain ⟨text, displayed, same⟩ := bind_ok rest
    obtain ⟨count, rfl⟩ := Prod.mk.inj (Except.ok.inj same)
    exact ⟨B, j, answered, count, displayed⟩

end Optimizer

end Propositional
