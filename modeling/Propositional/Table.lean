/-!
# Tables of cells

A table hands out cells by index, starting at 1, and takes them back: a cell that was given up is
the next to be handed out again, last given up first. The vacant cells are linked: each names the
one that is reused after it, so that no room is needed for them elsewhere. An access to a cell that
does not hold a value is a fault and says which, and so is a table with room for more cells than can
be counted or addressed in words of 64 bits.
-/

namespace Propositional

inductive Table.Entry (α : Type) where
  | holding (value : α)
  | vacant (next : Nat)

def Table.Entry.value? {α : Type} : Entry α → Option α
  | holding value => some value
  | vacant _ => none

/-- Cell `i` is stored at position `i - 1`. The vacant cells are linked from `head` on, 0 ends the
links, and `count` cells hold a value. -/
structure Table (α : Type) where
  cells : Array (Table.Entry α) := #[]
  head : Nat := 0
  count : Nat := 0

inductive Table.Fault where
  | zeroIndex
  | outOfBounds (length index : Nat)
  | vacant (index : Nat)
  | doubleFree (index : Nat)
  | uncountable
  | unaddressable
  deriving DecidableEq, Repr

def Table.Fault.message : Table.Fault → String
  | zeroIndex => "assertion `left != right` failed: Index is 0"
  | outOfBounds length index =>
    s!"index out of bounds: the len is {length} but the index is {index}"
  | vacant index => s!"Cell {index} is free"
  | doubleFree index => s!"Double free of cell {index}"
  | uncountable => "attempt to add with overflow"
  | unaddressable => "capacity overflow"

namespace Table

variable {α : Type}

/-- An empty table with room for `capacity` cells of `bytes` bytes each, besides the reserved cell 0.
The number of cells is a word, and the number of bytes a non-negative signed word. -/
def withCapacity (bytes capacity : Nat) : Except Fault (Table α) :=
  if Nat.pow 2 64 ≤ capacity + 1 then .error .uncountable
  else if Nat.pow 2 63 ≤ (capacity + 1) * bytes then .error .unaddressable
  else .ok {}

/-- The bytes of a cell for text: place, length and capacity of the text, and the next free cell. -/
def textCellBytes : Nat := 4 * 8

def size (t : Table α) : Nat := t.cells.size

def value? (t : Table α) (index : Nat) : Option α :=
  if index = 0 then none else t.cells[index - 1]?.bind Entry.value?

def next (t : Table α) (index : Nat) : Nat :=
  match t.cells[index - 1]? with
  | some (.vacant next) => next
  | _ => 0

def entry (t : Table α) (index : Nat) : Except Fault (Entry α) :=
  if index = 0 then .error .zeroIndex
  else
    match t.cells[index - 1]? with
    | some entry => .ok entry
    | none => .error (.outOfBounds (t.size + 1) index)

def occupied (t : Table α) (index : Nat) : Except Fault Bool :=
  if index = 0 then .error .zeroIndex else .ok (t.value? index).isSome

def get (t : Table α) (index : Nat) : Except Fault α := do
  match ← t.entry index with
  | .holding value => return value
  | .vacant _ => throw (.vacant index)

def put (t : Table α) (index : Nat) (content : Entry α) : Table α :=
  { t with cells := t.cells.setIfInBounds (index - 1) content }

def set (t : Table α) (index : Nat) (value : α) : Except Fault (Table α) := do
  match ← t.entry index with
  | .holding _ => return t.put index (.holding value)
  | .vacant _ => throw (.vacant index)

def add (t : Table α) (value : α) : Nat × Table α :=
  if t.head = 0 then
    (t.size + 1, { t with cells := t.cells.push (.holding value), count := t.count + 1 })
  else
    (t.head, { t.put t.head (.holding value) with head := t.next t.head, count := t.count + 1 })

def drop (t : Table α) (index : Nat) : Except Fault (α × Table α) := do
  match ← t.entry index with
  | .holding value =>
    return (value, { t.put index (.vacant t.head) with head := index, count := t.count - 1 })
  | .vacant _ => throw (.doubleFree index)

def indices (t : Table α) : List Nat :=
  (List.range' 1 t.size).filter fun index => (t.value? index).isSome

end Table

end Propositional
