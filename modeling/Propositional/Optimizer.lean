import Propositional.Rule.Builtin

/-!
# Optimizers

An optimizer is an ordered list of rules with two settings.
-/

namespace Propositional

structure Optimizer where
  rules : List Rule := Rule.builtin
  /-- Whether the nodes that a replacement has made, and a subtree that it has moved, are offered to
  the rules at once. Otherwise each position changes at most once in a pass. -/
  settle : Bool := true
  /-- The number of passes after which the search for a stable tree is given up. -/
  maxPasses : Nat := 16

namespace Optimizer

def rulesFor (o : Optimizer) (variant : Variant) : List Rule :=
  o.rules.filter fun rule => rule.target = variant

def bracketed (items : List String) : String := "[" ++ ", ".intercalate items ++ "]"

def describeRules (o : Optimizer) (variant : Variant) : Option String :=
  match (o.rulesFor variant).map fun rule => Text.quoted rule.name with
  | [] => none
  | names => some s!"({Text.quoted variant.name}, {bracketed names})"

def describe (o : Optimizer) : String :=
  s!"Optimizer \x7b strategies: {bracketed (Variant.all.filterMap o.describeRules)}, " ++
    s!"config: OptimizerConfig \x7b settle_rewrites: {o.settle}, " ++
    s!"max_passes: {o.maxPasses} \x7d \x7d"

end Optimizer

end Propositional
