/-!
# Tokens

The units of a written formula: five keywords, names, the two parentheses, and a mark for the end
of the input.
-/

namespace Propositional

inductive Token.Kind where
  | ident
  | true
  | false
  | and
  | or
  | not
  | openParen
  | closeParen
  | eof
  deriving DecidableEq, Repr

/-- A token with its text and the offset of its first character, counted in UTF-8 bytes. -/
structure Token where
  kind : Token.Kind
  text : String
  offset : Nat
  deriving DecidableEq, Repr

namespace Token

/-- How a message speaks of a kind of token. -/
def Kind.describe : Kind → String
  | ident => "identifier"
  | true => "`TRUE`"
  | false => "`FALSE`"
  | and => "`AND`"
  | or => "`OR`"
  | not => "`NOT`"
  | openParen => "`(`"
  | closeParen => "`)`"
  | eof => "end of input"

/-- A word is one of the five keywords, in capitals, or else a name. -/
def Kind.ofWord (word : String) : Kind :=
  if word = "TRUE" then true
  else if word = "FALSE" then false
  else if word = "AND" then and
  else if word = "OR" then or
  else if word = "NOT" then not
  else ident

theorem Kind.ofWord_ne_eof (word : String) : Kind.ofWord word ≠ .eof := by
  unfold Kind.ofWord; grind

end Token

end Propositional
