import Propositional.Text.Quoted
import Propositional.Token

/-!
# Errors in written formulas

A text fails to be a formula at its first character that starts no token, at its first token that
cannot follow those before it, or at its end. The last two carry the kinds of token that could
have followed.
-/

namespace Propositional

/-- Why a text is not a formula. -/
inductive SyntaxError where
  | unexpectedChar (char : Char) (offset : Nat)
  | unexpectedToken (found : Token.Kind) (text : String) (expected : List Token.Kind)
      (offset : Nat)
  | unexpectedEnd (expected : List Token.Kind)
  deriving DecidableEq, Repr

namespace SyntaxError

/-- The kinds that were expected, as an enumeration that ends in `or`. -/
def alternatives (expected : List Token.Kind) : String :=
  match expected.reverse with
  | [] => "nothing"
  | [single] => single.describe
  | last :: others =>
    ", ".intercalate (others.reverse.map Token.Kind.describe) ++ " or " ++ last.describe

def message : SyntaxError → String
  | unexpectedChar char offset =>
    s!"unexpected character {Text.quotedChar char} at offset {offset}"
  | unexpectedToken _ text expected offset =>
    s!"unexpected {Text.quoted text} at offset {offset}, expected {alternatives expected}"
  | unexpectedEnd expected => s!"unexpected end of input, expected {alternatives expected}"

end SyntaxError

end Propositional
