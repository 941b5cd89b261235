import Propositional.Arena.Chain
import Propositional.Arena.Fold
import Propositional.Candidate

/-!
# Comparing subtrees

Three notions of sameness. Structural equality is equality of the trees, parentheses included; the
fingerprint of a tree is a sequence that belongs to no other tree, and its hash tells most different
trees apart quickly. A candidate reproduces a node if it would put an equal tree in its place. Two
trees are the same up to associativity and commutativity if the operands of their chains can be
paired off.
-/

namespace Propositional.Arena

/-! ### Structural equality -/

def structuralEqTo (A B : Arena) : Nat → Handle → Handle → Checked Bool
  | 0, _, _ => throw .endless
  | depth + 1, a, b => do
    match ← A.shape a, ← B.shape b with
    | .root x, .root y | .not x, .not y | .parens x, .parens y => structuralEqTo A B depth x y
    | .binary p l r, .binary q l' r' =>
      if p = q then
        if ← structuralEqTo A B depth l l' then structuralEqTo A B depth r r' else return false
      else return false
    | .id x, .id y => return x = y
    | .literal x, .literal y => return x = y
    | _, _ => return false

/-- Whether the tree at `a` in this arena equals the tree at `b` in another. -/
def structuralEqIn (A : Arena) (a : Handle) (B : Arena) (b : Handle) : Checked Bool :=
  structuralEqTo A B (A.bound * B.bound) a b

def structuralEq (A : Arena) (a b : Handle) : Checked Bool := A.structuralEqIn a A b

def rootsEqIn (A B : Arena) : List (Handle × Handle) → Checked Bool
  | [] => return true
  | (a, b) :: later => do
    if ← A.structuralEqIn a B b then rootsEqIn A B later else return false

/-- Whether two arenas hold equal trees, in the order of their roots. -/
def sameTrees (A B : Arena) : Checked Bool :=
  if A.roots.length = B.roots.length then rootsEqIn A B (A.roots.zip B.roots) else return false

/-! ### Fingerprints -/

inductive Mark where
  | variant (variant : Variant)
  | connective (op : Connective)
  | name (name : String)
  | value (value : Bool)
  deriving DecidableEq, Repr, Hashable

def marks (shape : Shape Unit) : List Mark :=
  .variant shape.variant ::
    match shape with
    | .binary op _ _ => [.connective op]
    | .id name => [.name name]
    | .literal value => [.value value]
    | .root _ | .not _ | .parens _ => []

def fingerprint (A : Arena) : Handle → Checked (List Mark) := A.collect fun _ => marks

def structuralHash (A : Arena) (h : Handle) : Checked UInt64 := return hash (← A.fingerprint h)

/-! ### Candidates -/

/-- Whether a candidate, put in the place of a node, would leave an equal tree there. -/
def reproduces (A : Arena) (h : Handle) : Candidate → Checked Bool
  | .existing other => do
    let _ ← A.shape h
    A.structuralEq h other
  | .binary q l' r' => do
    match ← A.shape h with
    | .binary p l r =>
      if p = q then
        if ← A.reproduces l l' then A.reproduces r r' else return false
      else return false
    | _ => return false
  | .not operand => do
    match ← A.shape h with
    | .not child => A.reproduces child operand
    | _ => return false
  | .parens inner => do
    match ← A.shape h with
    | .parens child => A.reproduces child inner
    | _ => return false
  | .id y => return (← A.shape h) = .id y
  | .literal y => return (← A.shape h) = .literal y

/-! ### Up to associativity and commutativity -/

def eraseFirst? {α : Type} (test : α → Checked Bool) : List α → Checked (Option (List α))
  | [] => return none
  | x :: xs => do
    if ← test x then return some xs
    else return (← eraseFirst? test xs).map (x :: ·)

/-- Pairs every member of one list with an equal member of another, the first that is left. -/
def pairOff {α : Type} (same : α → α → Checked Bool) : List α → List α → Checked Bool
  | [], _ => return true
  | x :: xs, ys => do
    match ← eraseFirst? (same x) ys with
    | some left => pairOff same xs left
    | none => return false

/-- Compares two trees up to associativity, commutativity and parentheses, to a given depth. -/
def acEqTo (A : Arena) : Nat → Handle → Handle → Checked Bool
  | 0, _, _ => throw .endless
  | depth + 1, a, b => do
    let a ← A.peel a
    let b ← A.peel b
    match ← A.shape a, ← A.shape b with
    | .root x, .root y | .not x, .not y => A.acEqTo depth x y
    | .binary p _ _, .binary q _ _ =>
      if p = q then
        let xs ← A.chainOperands a p
        let ys ← A.chainOperands b q
        if xs.length = ys.length then pairOff (A.acEqTo depth) xs ys else return false
      else return false
    | .id x, .id y => return x = y
    | .literal x, .literal y => return x = y
    | _, _ => return false

/-- Whether two trees differ only in the order and grouping of the operands of their chains and in
parentheses. -/
def acEq (A : Arena) (a b : Handle) : Checked Bool := A.acEqTo (A.bound * A.bound) a b

end Propositional.Arena
