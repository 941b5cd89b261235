import Propositional.Arena.Basic

/-!
# Recursion over the subtree of a node

`Arena.fold` computes a value for a node from the values of its children, from left to right, and
`Arena.collect` is its special case that lists something for each node. What can be known of a
subtree by looking at each node once is an instance of them: its nodes, their number, its depth, its
names and its value under an assignment.
-/

namespace Propositional.Arena

variable {α : Type}

def foldTo (A : Arena) (f : Handle → Shape α → α) : Nat → Handle → Checked α
  | 0, _ => throw .endless
  | depth + 1, h => do
    let shape ← A.shape h
    return f h (← shape.traverse (A.foldTo f depth))

def fold (A : Arena) (f : Handle → Shape α → α) (h : Handle) : Checked α := A.foldTo f A.bound h

/-- The items that `f` gives for a node, then those of the children, then some others. -/
def collectShape (f : Handle → Shape Unit → List α) (h : Handle)
    (shape : Shape (List α → List α)) (others : List α) : List α :=
  f h shape.skeleton ++ shape.children.foldr (fun child later => child later) others

/-- The items that `f` gives for the nodes of the subtree: those of each node before those of its
children, and the left child's before the right one's. -/
def collect (A : Arena) (f : Handle → Shape Unit → List α) (h : Handle) : Checked (List α) :=
  return (← A.fold (collectShape f) h) []

/-- The nodes of the subtree, each before its children. -/
def descendants (A : Arena) : Handle → Checked (List Handle) := A.collect fun h _ => [h]

def size (A : Arena) (h : Handle) : Checked Nat := return (← A.descendants h).length

/-- The number of steps down to the deepest node. -/
def depth (A : Arena) : Handle → Checked Nat :=
  A.fold fun _ shape => shape.children.foldl (fun deepest d => max deepest (d + 1)) 0

def occurrences (A : Arena) : Handle → Checked (List String) :=
  A.collect fun _ shape =>
    match shape with
    | .id name => [name]
    | _ => []

def insertName (name : String) : List String → List String
  | [] => [name]
  | first :: later =>
    if name < first then name :: first :: later
    else if name = first then first :: later
    else first :: insertName name later

def names (A : Arena) (h : Handle) : Checked (List String) :=
  return (← A.occurrences h).foldl (fun names name => insertName name names) []

def evalShape (assignment : String → Bool) : Shape Bool → Bool
  | .root value | .parens value => value
  | .not value => !value
  | .binary op left right => op.apply left right
  | .id name => assignment name
  | .literal value => value

def eval (A : Arena) (assignment : String → Bool) : Handle → Checked Bool :=
  A.fold fun _ => evalShape assignment

/-- The assignment that makes the `i`-th of some names true if bit `i` of a mask is set. Other
names are false. -/
def maskAssignment (names : List String) (mask : Nat) (name : String) : Bool :=
  match names.idxOf? name with
  | some i => mask.testBit i
  | none => false

/-- The values of the subtree under all assignments of some names, by ascending mask. -/
def truthTable (A : Arena) (names : List String) (h : Handle) : Checked (List Bool) :=
  (List.range (Nat.pow 2 names.length)).mapM fun mask => A.eval (maskAssignment names mask) h

end Propositional.Arena
