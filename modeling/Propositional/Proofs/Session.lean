import Propositional.Proofs.Arena.Entry
import Propositional.Proofs.Arena.Intact
import Propositional.Proofs.Optimizer.Calls
import Propositional.Proofs.Optimizer.Soundness

/-!
# Sessions

A session starts with an empty arena, enters texts, readable or not, and optimizes with rules of the
library, as often as it likes and in any order. Each action needs no more than a node to start from,
and leaves an arena on which the next one works: so no session ever meets a fault, and the arena is
intact at every moment.
-/

namespace Propositional

/-- One thing to do with an arena. An optimizer comes with rules of the library only. -/
inductive Action where
  | enter (input : String)
  | pass (o : Optimizer) (library : ∀ rule ∈ o.rules, rule ∈ Rule.builtin) (verbosity : Verbosity)
      (start : Handle)
  | untilStable (o : Optimizer) (library : ∀ rule ∈ o.rules, rule ∈ Rule.builtin) (verbosity : Verbosity)
      (root : Handle)

namespace Action

def run (A : Arena) : Action → Checked Arena
  | enter input => return (← A.enter input).2
  | pass o _ verbosity start => return (← o.runPass verbosity A start).1
  | untilStable o _ verbosity root => return (← o.runUntilStable verbosity A root).1

/-- Passes start from live nodes, and searches for a stable tree from listed roots. -/
def Starts (A : Arena) : Action → Prop
  | enter _ => True
  | pass _ _ _ start => A.isLive start = .ok true
  | untilStable _ _ _ root => root ∈ A.roots

instance (A : Arena) : DecidablePred (Starts A)
  | enter _ => inferInstanceAs (Decidable True)
  | pass _ _ _ start => inferInstanceAs (Decidable (A.isLive start = .ok true))
  | untilStable _ _ _ root => inferInstanceAs (Decidable (root ∈ A.roots))

/-- On the way the node is offered to the rules, with the arena as it is then. -/
def Offers (A : Arena) (h : Handle) (B : Arena) : Action → Prop
  | enter _ => False
  | pass o _ verbosity start => ∃ steps j,
    Relation.ReflTransGen (Optimizer.Makes o verbosity) (.pass A start) (.offer steps h (B, j))
  | untilStable o _ verbosity root => ∃ steps j,
    Relation.ReflTransGen (Optimizer.Makes o verbosity) (.untilStable root o.maxPasses 0 (A, {}))
      (.offer steps h (B, j))

end Action

namespace Session

def run (A : Arena) (actions : List Action) : Checked Arena := actions.foldlM Action.run A

/-- Each action starts from a node that is there when its turn comes. -/
def Starts (A : Arena) : List Action → Prop
  | [] => True
  | action :: later => action.Starts A ∧ match action.run A with
    | .ok B => Starts B later
    | .error _ => True

instance decidableStarts (A : Arena) : (actions : List Action) → Decidable (Starts A actions)
  | [] => inferInstanceAs (Decidable True)
  | action :: later =>
    have : Decidable (match action.run A with | .ok B => Starts B later | .error _ => True) :=
      match action.run A with
      | .ok B => decidableStarts B later
      | .error _ => inferInstanceAs (Decidable True)
    inferInstanceAs (Decidable (_ ∧ _))

end Session

/-! ### One action -/

namespace Optimizer

variable {o : Optimizer} {A : Arena} {trees : List Tree} {start root : Handle}

theorem runPass_represents (library : ∀ rule ∈ o.rules, rule ∈ Rule.builtin) (represents : A.Represents trees)
    (live : A.isLive start = .ok true) (verbosity : Verbosity) :
    ∃ B j later, o.runPass verbosity A start = .ok (B, j) ∧ B.Represents later ∧ B.roots = A.roots := by
  obtain ⟨laws, follows, members⟩ := exists_laws library
  obtain ⟨C, t, rfl, covers⟩ := exists_covers represents live
  obtain ⟨g, n, -, B, j, s, ran, represented, roots, -⟩ :=
    runPass_reaches follows members represents covers verbosity
  exact ⟨B, j, C.fill s, ran, represented, roots⟩

theorem runUntilStable_represents (library : ∀ rule ∈ o.rules, rule ∈ Rule.builtin)
    (represents : A.Represents trees) (listed : root ∈ A.roots) (verbosity : Verbosity) :
    ∃ B j later, o.runUntilStable verbosity A root = .ok (B, j) ∧ B.Represents later ∧ B.roots = A.roots := by
  obtain ⟨laws, follows, members⟩ := exists_laws library
  have step : ∀ law ∈ laws, ∀ above f d, law above f = some d → ∀ σ, d.formula.eval σ = f.eval σ :=
    fun law member _ _ _ drafted => Law.eval_of_mem_builtin (members law member) drafted
  obtain ⟨before, after, t, rfl⟩ := exists_top represents listed
  obtain ⟨B, j, s, n, ran, represented, roots, -⟩ :=
    passesUntilStable_keeps congruent_sameValue step follows members represents rfl verbosity o.maxPasses 0 {}
  exact ⟨B, j, _, ran, represented, roots⟩

end Optimizer

/-- What every action keeps: the arena is a forest, and no root is listed twice. -/
def Arena.IsForest (A : Arena) : Prop := (∃ trees, A.Represents trees) ∧ A.roots.Nodup

theorem Arena.isForest_empty : ({} : Arena).IsForest := ⟨⟨[], represents_empty⟩, List.nodup_nil⟩

namespace Action

variable {A : Arena} {action : Action}

theorem run_isForest (forest : A.IsForest) (starts : action.Starts A) :
    ∃ B, action.run A = .ok B ∧ B.IsForest := by
  obtain ⟨⟨trees, represents⟩, nodup⟩ := forest
  cases action with
  | enter input =>
    cases read : Formula.read input with
    | ok f =>
      obtain ⟨x, B, entered, -, represented, new, roots⟩ := represents.enter_ok read
      refine ⟨B, by rw [run, entered]; rfl, ⟨_, represented⟩, ?_⟩
      rw [roots, ← List.concat_eq_append]
      exact nodup.concat new
    | error failure =>
      obtain ⟨B, entered, represented, roots⟩ := represents.enter_error read
      exact ⟨B, by rw [run, entered]; rfl, ⟨_, represented⟩, roots ▸ nodup⟩
  | pass o library verbosity start =>
    obtain ⟨B, j, later, ran, represented, roots⟩ :=
      o.runPass_represents library represents starts verbosity
    exact ⟨B, by rw [run, ran]; rfl, ⟨_, represented⟩, roots ▸ nodup⟩
  | untilStable o library verbosity root =>
    obtain ⟨B, j, later, ran, represented, roots⟩ :=
      o.runUntilStable_represents library represents starts verbosity
    exact ⟨B, by rw [run, ran]; rfl, ⟨_, represented⟩, roots ▸ nodup⟩

theorem live_of_offers {B C : Arena} {h : Handle} (ran : action.run A = .ok B) (offers : action.Offers A h C) :
    C.isLive h = .ok true := by
  cases action with
  | enter input => exact absurd offers id
  | pass o library verbosity start =>
    obtain ⟨steps, j, inside⟩ := offers
    obtain ⟨r, passed, -⟩ := Checked.bind_ok ran
    obtain ⟨w, walked, -⟩ := Checked.bind_ok passed
    have answered : (Optimizer.Call.pass A start).Answered o verbosity := ⟨w, walked⟩
    exact Optimizer.live_of_offer (Optimizer.answered_inside answered inside)
  | untilStable o library verbosity root =>
    obtain ⟨steps, j, inside⟩ := offers
    obtain ⟨r, stable, -⟩ := Checked.bind_ok ran
    have answered : (Optimizer.Call.untilStable root o.maxPasses 0 (A, {})).Answered o verbosity := ⟨r, stable⟩
    exact Optimizer.live_of_offer (Optimizer.answered_inside answered inside)

theorem offers_start {o : Optimizer} {library : ∀ rule ∈ o.rules, rule ∈ Rule.builtin} {verbosity : Verbosity}
    {start : Handle} {B : Arena} (ran : (pass o library verbosity start).run A = .ok B) :
    ∃ C, (pass o library verbosity start).Offers A start C := by
  obtain ⟨r, passed, -⟩ := Checked.bind_ok ran
  obtain ⟨w, walked, -⟩ := Checked.bind_ok passed
  obtain ⟨⟨C, j⟩, inside⟩ := Optimizer.exists_offer_of_walk walked
  exact ⟨C, A.patience, j, inside⟩

end Action

/-! ### Whole sessions -/

namespace Session

variable {A : Arena} {actions : List Action}

theorem exists_run_before {before after : List Action} (forest : A.IsForest) (starts : Starts A (before ++ after)) :
    ∃ B, run A before = .ok B ∧ B.IsForest ∧ Starts B after := by
  induction before generalizing A with
  | nil => exact ⟨A, rfl, forest, starts⟩
  | cons action later ih =>
    obtain ⟨first, rest⟩ := starts
    -- That the arena is a forest makes the first action answer, and what it leaves is one again.
    obtain ⟨A₁, ran, forest⟩ := action.run_isForest forest first
    rw [ran] at rest
    obtain ⟨B, ranLater, forest, starts⟩ := ih forest rest
    refine ⟨B, ?_, forest, starts⟩
    rw [run, List.foldlM_cons, ran]
    exact ranLater

theorem run_isForest (starts : Starts {} actions) : ∃ A, run {} actions = .ok A ∧ A.IsForest := by
  rw [← List.append_nil actions] at starts
  obtain ⟨A, ran, forest, -⟩ := exists_run_before Arena.isForest_empty starts
  exact ⟨A, ran, forest⟩

/-- A pass from a conjunction, with two of the rules. -/
def foldLiterals : Action :=
  .pass { rules := [Rule.deMorgan, Rule.literalOperand], settle := false } (by simp [Rule.builtin]) .debug ⟨3⟩

/-- Texts that can and cannot be read, a pass and a search for a stable tree. -/
def sample : List Action :=
  [.enter "NOT (x AND TRUE)", .enter "x OR (y", .enter "a OR a", foldLiterals, .untilStable {} (by simp) .silent ⟨6⟩]

/-- Whatever has been entered and optimized, the arena consists of the trees below its roots. -/
theorem intact_of_run (starts : Starts {} actions) : ∃ A, run {} actions = .ok A ∧ A.Intact := by
  obtain ⟨A, ran, ⟨trees, represents⟩, nodup⟩ := run_isForest starts
  exact ⟨A, ran, represents.intact nodup⟩

theorem intact_of_run_sample : ∃ A, run {} sample = .ok A ∧ A.Intact := intact_of_run (by decide +kernel)

/-- No action of a session meets a fault, and none offers a node that is gone. -/
theorem run_without_fault (starts : Starts {} actions) :
    (∃ A, run {} actions = .ok A) ∧
    ∀ before action after, actions = before ++ action :: after → ∃ A B, run {} before = .ok A ∧
      action.run A = .ok B ∧ ∀ h C, action.Offers A h C → C.isLive h = .ok true := by
  obtain ⟨A, ran, -⟩ := run_isForest starts
  refine ⟨⟨A, ran⟩, ?_⟩
  rintro before action after rfl
  obtain ⟨B, earlier, forest, turn⟩ := exists_run_before Arena.isForest_empty starts
  obtain ⟨C, acted, -⟩ := action.run_isForest forest turn.1
  exact ⟨B, C, earlier, acted, fun h D offers => action.live_of_offers acted offers⟩

theorem run_without_fault_sample : ∃ A C, run {} (sample.take 3) = .ok A ∧ foldLiterals.Offers A ⟨3⟩ C ∧
    C.isLive ⟨3⟩ = .ok true := by
  obtain ⟨-, turns⟩ := run_without_fault (show Starts {} sample by decide +kernel)
  obtain ⟨A, B, earlier, ran, live⟩ := turns (sample.take 3) foldLiterals (sample.drop 4) rfl
  obtain ⟨C, offers⟩ := Action.offers_start ran
  exact ⟨A, C, earlier, offers, live ⟨3⟩ C offers⟩

end Session

end Propositional
