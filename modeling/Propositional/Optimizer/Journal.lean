import Propositional.Handle

/-!
# Journals

An optimizer counts its replacements and, if asked, reports what it does.
-/

namespace Propositional

inductive Severity where
  | debug
  | trace
  deriving DecidableEq, Repr

inductive Verbosity where
  | silent
  | debug
  | trace
  deriving DecidableEq, Repr

def Verbosity.admits : Verbosity → Severity → Bool
  | silent, _ => false
  | debug, .debug => true
  | debug, .trace => false
  | trace, _ => true

inductive Event where
  | rejected (rule : String) (node : Handle)
  | replaced (rule : String) (node : Handle) (before after : String)
  | passed (start : Handle) (replacements live : Nat)
  | stable (passes : Nat)
  /-- Every pass replaced something. -/
  | gaveUp (passes : Nat)
  deriving DecidableEq, Repr

namespace Event

def severity : Event → Severity
  | rejected .. => .trace
  | _ => .debug

def text : Event → String
  | rejected rule node => s!"{rule} rejected its proposal for {node.text}"
  | replaced rule node before after => s!"{rule} at {node.text}: `{before}` => `{after}`"
  | passed start replacements live =>
    s!"Pass over {start.text} done: {replacements} rewrites, {live} live nodes"
  | stable passes => s!"Stable after {passes} passes"
  | gaveUp passes => s!"Gave up after {passes} passes"

def line (e : Event) : String :=
  match e.severity with
  | .debug => "DEBUG " ++ e.text
  | .trace => "TRACE " ++ e.text

end Event

structure Journal where
  replacements : Nat := 0
  /-- The reports, the latest first. -/
  events : List Event := []
  deriving DecidableEq, Repr

namespace Journal

def report (j : Journal) (verbosity : Verbosity) (e : Event) : Journal :=
  if verbosity.admits e.severity then { j with events := e :: j.events } else j

def count (j : Journal) : Journal := { j with replacements := j.replacements + 1 }

def append (earlier later : Journal) : Journal :=
  { replacements := earlier.replacements + later.replacements,
    events := later.events ++ earlier.events }

def lines (j : Journal) : List String := j.events.reverse.map Event.line

end Journal

end Propositional
