import Propositional.Arena.Compare
import Propositional.Rule

/-!
# The rule for chains

A chain keeps the first of several equal operands, and collapses to the absorbing literal of its
connective if it holds both some `a` and `NOT a`. What is left is rebuilt as a chain that groups to
the left. Only the node at the head of a chain is replaced.

Operands are looked up by a digest of their fingerprints before they are compared. The outcome does
not depend on the digest.
-/

namespace Propositional.Rule

/-- Pairwise different operands with their digests, the latest first. -/
abbrev OperandIndex (κ : Type) := List (κ × Handle)

namespace OperandIndex

variable {κ : Type} [DecidableEq κ]

@[specialize]
def find (A : Arena) (key : κ) (h : Handle) : OperandIndex κ → Checked Bool
  | [] => return false
  | (key', operand) :: later =>
    if key' = key then do
      if ← A.structuralEq operand h then return true else find A key h later
    else find A key h later

def contains (A : Arena) (digest : List Arena.Mark → κ) (index : OperandIndex κ) (h : Handle) :
    Checked Bool := do
  find A (digest (← A.fingerprint h)) h index

def insert (A : Arena) (digest : List Arena.Mark → κ) (index : OperandIndex κ) (h : Handle) :
    Checked (OperandIndex κ) := do
  let key := digest (← A.fingerprint h)
  if ← find A key h index then return index else return (key, h) :: index

def ofList (A : Arena) (digest : List Arena.Mark → κ) (nodes : List Handle) :
    Checked (OperandIndex κ) :=
  nodes.foldlM (insert A digest) []

end OperandIndex

variable {κ : Type} [DecidableEq κ]

/-- The operands of the chain at a node, each of several equal ones once and where it occurs
first. -/
def distinctOperandsBy (digest : List Arena.Mark → κ) (A : Arena) (h : Handle) :
    Checked (List Handle) := do
  match ← A.shape h with
  | .binary op _ _ =>
    let index ← OperandIndex.ofList A digest (← A.chainOperands h op)
    return index.reverse.map Prod.snd
  | _ => return [h]

/-- Whether one of the nodes is the negation of another, parentheses below the `NOT` aside. -/
def hasComplementsBy (digest : List Arena.Mark → κ) (A : Arena) (nodes : List Handle) :
    Checked Bool := do
  let index ← OperandIndex.ofList A digest nodes
  nodes.anyM fun h => do
    match ← A.shape h with
    | .not inner => index.contains A digest (← A.peel inner)
    | _ => return false

def reducedChainBy (digest : List Arena.Mark → κ) (A : Arena) (h : Handle) : Checked Candidate := do
  let shape ← A.shape h
  match shape with
  | .binary op _ _ =>
    let operands ← distinctOperandsBy digest A h
    if ← hasComplementsBy digest A operands then return .literal op.absorbing
    else
      match Candidate.leftChain? op (operands.map .existing) with
      | some chain => return chain
      | none => throw (.emptyChain h)
  | _ => throw (.inapplicable "chain-reducer" shape)

def digest (marks : List Arena.Mark) : UInt64 := hash marks

def distinctOperands : Arena → Handle → Checked (List Handle) := distinctOperandsBy digest

def hasComplements : Arena → List Handle → Checked Bool := hasComplementsBy digest

/-- `a OR (b OR a)` becomes `a OR b`, and `a OR NOT a` becomes `TRUE`. -/
def chainReduction : Rule where
  name := "chain-reducer"
  target := .binary
  appropriate A h := do
    match ← A.shape h with
    | .binary op _ _ => A.headsChain h op
    | _ => return false
  propose := reducedChainBy digest
  accept A h candidate := return !(← A.reproduces h candidate)

end Propositional.Rule
