/-!
# Handles

A node of an arena is known by its handle, the index of its cell.
-/

namespace Propositional

/-- The index of a node's cell. Copying a handle copies no node, and a handle outlives the node:
its cell may be vacant later, or hold another node. Handles are kept in words of 32 bits, and arenas
are taken to stay below `2 ^ 32` cells, so that an index is never cut off. -/
structure Handle where
  index : Nat
  deriving DecidableEq, Repr, Hashable

namespace Handle

def text (h : Handle) : String := s!"@{h.index}"

/-- A handle in the description of a node. -/
def describe (h : Handle) : String := s!"NodeId({h.index})"

end Handle

end Propositional
