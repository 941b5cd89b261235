/-!
# Sets of characters

A set of characters is a list of inclusive code point ranges, as character properties are
published. The sets of this library are those of Unicode 17.
-/

namespace Propositional.Text

/-- A set of characters, given by inclusive ranges of code points. -/
abbrev CharSet := List (Nat × Nat)

namespace CharSet

def contains (s : CharSet) (c : Char) : Bool :=
  s.any fun range => range.1 ≤ c.toNat && c.toNat ≤ range.2

theorem contains_iff {s : CharSet} {c : Char} :
    s.contains c = true ↔ ∃ range ∈ s, range.1 ≤ c.toNat ∧ c.toNat ≤ range.2 := by
  simp [contains]

end CharSet

end Propositional.Text
