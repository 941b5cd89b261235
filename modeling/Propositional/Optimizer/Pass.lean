import Propositional.Arena.Display
import Propositional.Arena.Splice
import Propositional.Arena.Walk
import Propositional.Optimizer
import Propositional.Optimizer.Journal

/-!
# Passes

A pass walks through a subtree, children first, and offers each node to the rules for its sort. The
first rule that is appropriate and accepts its own proposal replaces the node. If the optimizer
settles its replacements, the new nodes are offered next, children first, and so is a subtree that
was moved into the place of the node.

Rules of the library make a pass end by themselves, since each replacement makes the tree lighter.
Other rules need not, so a pass stops after a number of nested steps that no pass with rules of the
library reaches.
-/

namespace Propositional.Optimizer

def choose (verbosity : Verbosity) (A : Arena) (h : Handle) (j : Journal) :
    List Rule → Checked (Option (Rule × Candidate) × Journal)
  | [] => return (none, j)
  | rule :: later => do
    if ← rule.appropriate A h then
      let candidate ← rule.propose A h
      if ← rule.accept A h candidate then return (some (rule, candidate), j)
      else choose verbosity A h (j.report verbosity (.rejected rule.name h)) later
    else choose verbosity A h j later

structure Replacement where
  arena : Arena
  journal : Journal
  fresh : List Handle
  /-- The node that now stands in the place of the old one. -/
  after : Handle

/-- Puts a candidate in the place of a node. Texts are made only if they are reported. -/
def replaceWith (verbosity : Verbosity) (A : Arena) (parent h : Handle) (rule : Rule)
    (candidate : Candidate) (j : Journal) : Checked Replacement := do
  let slot := ((← A.children parent).idxOf? h).getD 0
  let before ← if verbosity.admits .debug then A.display h else pure ""
  let (fresh, A) ← A.substitute h candidate
  match ← A.child parent slot with
  | none => throw (.slotVanished slot parent)
  | some after =>
    let text ← if verbosity.admits .debug then A.display after else pure ""
    let j := j.count.report verbosity (.replaced rule.name h before text)
    return { arena := A, journal := j, fresh, after }

/-- Offers a node to the rules, in a given number of nested steps. A node without a parent has no
place in which it could be replaced. -/
def offerTo (o : Optimizer) (verbosity : Verbosity) :
    Nat → Handle → Arena × Journal → Checked (Arena × Journal)
  | 0, _, _ => throw .endless
  | steps + 1, h, (A, j) => do
    match ← A.parent h with
    | none => return (A, j)
    | some parent =>
      match ← choose verbosity A h j (o.rulesFor (← A.variant h)) with
      | (none, j) => return (A, j)
      | (some (rule, candidate), j) =>
        let done ← replaceWith verbosity A parent h rule candidate j
        if o.settle then
          let settled ← done.fresh.foldlM
            (fun state node => do
              if ← state.1.isLive node then o.offerTo verbosity steps node state
              else throw (.freshGone node))
            (done.arena, done.journal)
          if done.fresh.contains done.after then return settled
          else o.offerTo verbosity steps done.after settled
        else return (done.arena, done.journal)

def visit (o : Optimizer) (verbosity : Verbosity) (steps : Nat) : Arena.Visit Journal :=
  fun h A j => do
    let (A, later) ← o.offerTo verbosity steps h (A, j)
    return (later.replacements ≠ j.replacements, A, later)

def runPassTo (o : Optimizer) (verbosity : Verbosity) (steps : Nat) (A : Arena) (start : Handle) :
    Checked (Arena × Journal) := do
  let w ← A.walkTo (o.visit verbosity steps) steps start {}
  let replacements := w.notes.replacements
  return (w.arena, w.notes.report verbosity (.passed start replacements w.arena.live))

def runPass (o : Optimizer) (verbosity : Verbosity) (A : Arena) (start : Handle) :
    Checked (Arena × Journal) :=
  o.runPassTo verbosity A.patience A start

def passesUntilStable (o : Optimizer) (verbosity : Verbosity) (start : Handle) :
    (left done : Nat) → Arena × Journal → Checked (Arena × Journal)
  | 0, done, (A, j) => return (A, j.report verbosity (.gaveUp done))
  | left + 1, done, (A, j) => do
    let (A, pass) ← o.runPass verbosity A start
    let j := j.append pass
    if pass.replacements = 0 then return (A, j.report verbosity (.stable (done + 1)))
    else o.passesUntilStable verbosity start left (done + 1) (A, j)

/-- Passes over the subtree of a node until one replaces nothing, or there have been too many. -/
def runUntilStable (o : Optimizer) (verbosity : Verbosity) (A : Arena) (start : Handle) :
    Checked (Arena × Journal) :=
  o.passesUntilStable verbosity start o.maxPasses 0 (A, {})

end Propositional.Optimizer
