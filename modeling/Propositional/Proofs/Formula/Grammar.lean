import Propositional.Formula
import Propositional.Token

/-!
# The grammar of written formulas

Derivations in the grammar

```text
OrChain  := AndChain (OR AndChain)*
AndChain := Unary (AND Unary)*
Unary    := NOT Unary | Primary
Primary  := name | TRUE | FALSE | ( OrChain )
```

with the tokens that a derivation covers and the tree that it stands for. A chain groups to the left,
and each pair of parentheses is a node. Tree and tokens together determine a derivation.
-/

namespace Propositional

namespace Token.Kind

def ofConnective : Connective → Kind
  | .and => and
  | .or => or

def ofLiteral (value : Bool) : Kind := if value then true else false

end Token.Kind

inductive Symbol where
  /-- An `AndChain` or an `OrChain`. -/
  | chain (op : Connective)
  | unary
  | primary
  deriving DecidableEq, Repr

/-- What a chain is made of, between its keywords. -/
@[reducible] def Symbol.operand : Connective → Symbol
  | .or => chain .and
  | .and => unary

inductive Derivation : Symbol → Type where
  /-- A chain starts with an operand, -/
  | first {op : Connective} (operand : Derivation (.operand op)) : Derivation (.chain op)
  /-- and any number of times goes on with its keyword and another one. -/
  | more {op : Connective} (chain : Derivation (.chain op)) (keyword : Token)
      (isKeyword : keyword.kind = .ofConnective op) (operand : Derivation (.operand op)) :
      Derivation (.chain op)
  | not (keyword : Token) (isNot : keyword.kind = .not) (operand : Derivation .unary) :
      Derivation .unary
  | primary (atom : Derivation .primary) : Derivation .unary
  | name (token : Token) (isName : token.kind = .ident) : Derivation .primary
  | literal (token : Token) (value : Bool) (isLiteral : token.kind = .ofLiteral value) :
      Derivation .primary
  | group (opening : Token) (isOpening : opening.kind = .openParen) (inner : Derivation (.chain .or))
      (closing : Token) (isClosing : closing.kind = .closeParen) : Derivation .primary

namespace Derivation

variable {s : Symbol} {op : Connective}

def tokens {s : Symbol} : Derivation s → List Token
  | first operand => operand.tokens
  | more chain keyword _ operand => chain.tokens ++ keyword :: operand.tokens
  | not keyword _ operand => keyword :: operand.tokens
  | primary atom => atom.tokens
  | name token _ | literal token _ _ => [token]
  | group opening _ inner closing _ => opening :: (inner.tokens ++ [closing])

def formula {s : Symbol} : Derivation s → Formula
  | first operand => operand.formula
  | @more op chain _ _ operand => .binary op chain.formula operand.formula
  | not _ _ operand => .not operand.formula
  | primary atom => atom.formula
  | name token _ => .id token.text
  | literal _ value _ => .literal value
  | group _ _ inner _ _ => .parens inner.formula

end Derivation

/-- The number of tokens of a formula that is written as it is. -/
def Formula.width : Formula → Nat
  | binary _ left right => left.width + right.width + 1
  | not operand => operand.width + 1
  | parens inner => inner.width + 2
  | id _ | literal _ => 1

namespace Derivation

variable {s : Symbol} {op : Connective}

theorem length_tokens (d : Derivation s) : d.tokens.length = d.formula.width := by
  induction d with
  | first operand ih => exact ih
  | more chain keyword isKeyword operand ihl ihr =>
    simp only [tokens, formula, Formula.width, List.length_append, List.length_cons]
    omega
  | not keyword isNot operand ih => simpa [tokens, formula, Formula.width] using ih
  | primary atom ih => exact ih
  | name token isName => rfl
  | literal token value isLiteral => rfl
  | group opening isOpening inner closing isClosing ih =>
    simpa [tokens, formula, Formula.width] using ih

theorem unary_ne_binary (d : Derivation .unary) (op : Connective) (l r : Formula) :
    d.formula ≠ .binary op l r := by
  cases d with
  | not keyword isNot operand => simp [formula]
  | primary atom => cases atom <;> simp [formula]

theorem primary_ne_not (d : Derivation .primary) (f : Formula) : d.formula ≠ .not f := by
  cases d <;> simp [formula]

theorem operand_ne_binary (d : Derivation (.operand op)) (l r : Formula) :
    d.formula ≠ .binary op l r := by
  cases op with
  | and => exact unary_ne_binary d .and l r
  | or =>
    cases d with
    | first operand => exact unary_ne_binary operand .or l r
    | more chain keyword isKeyword operand => simp [formula]

theorem append_inj_of_formula {t : Symbol} {left : Derivation s} {left' : Derivation t}
    {right right' : List Token} (same : left.formula = left'.formula)
    (tokens : left.tokens ++ right = left'.tokens ++ right') :
    left.tokens = left'.tokens ∧ right = right' := by
  refine List.append_inj tokens ?_
  rw [length_tokens, length_tokens, same]

/-- There is only one way to derive a formula from its tokens. -/
theorem eq_of_formula_eq (d e : Derivation s) (formulas : d.formula = e.formula)
    (sameTokens : d.tokens = e.tokens) : d = e := by
  induction d with
  | @first op operand ih =>
    cases e with
    | first operand' => exact congrArg first (ih operand' formulas sameTokens)
    | more chain keyword isKeyword operand' => exact absurd formulas (operand_ne_binary operand _ _)
  | @more op chain keyword isKeyword operand ihl ihr =>
    cases e with
    | first operand' => exact absurd formulas.symm (operand_ne_binary operand' _ _)
    | more chain' keyword' isKeyword' operand' =>
      obtain ⟨-, lefts, rights⟩ := Formula.binary.inj formulas
      obtain ⟨before, after⟩ := append_inj_of_formula lefts sameTokens
      obtain ⟨rfl, last⟩ := List.cons.inj after
      rw [ihl chain' lefts before, ihr operand' rights last]
  | not keyword isNot operand ih =>
    cases e with
    | not keyword' isNot' operand' =>
      obtain ⟨rfl, after⟩ := List.cons.inj sameTokens
      rw [ih operand' (Formula.not.inj formulas) after]
    | primary atom => exact absurd formulas.symm (primary_ne_not atom _)
  | primary atom ih =>
    cases e with
    | not keyword isNot operand' => exact absurd formulas (primary_ne_not atom _)
    | primary atom' => rw [ih atom' formulas sameTokens]
  | name token isName =>
    cases e with
    | name token' isName' => cases sameTokens; rfl
    | literal token' value isLiteral | group opening isOpening inner closing isClosing => cases formulas
  | literal token value isLiteral =>
    cases e with
    | literal token' value' isLiteral' =>
      cases sameTokens
      cases formulas
      rfl
    | name token' isName | group opening isOpening inner closing isClosing => cases formulas
  | group opening isOpening inner closing isClosing ih =>
    cases e with
    | group opening' isOpening' inner' closing' isClosing' =>
      obtain ⟨rfl, after⟩ := List.cons.inj sameTokens
      have inners := Formula.parens.inj formulas
      obtain ⟨before, last⟩ := append_inj_of_formula inners after
      obtain ⟨rfl, -⟩ := List.cons.inj last
      rw [ih inner' inners before]
    | name token isName | literal token value isLiteral => cases formulas

end Derivation

end Propositional
