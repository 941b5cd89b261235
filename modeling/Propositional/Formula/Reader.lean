import Propositional.Formula
import Propositional.SyntaxError
import Propositional.Token.Lexer

/-!
# Reading formulas

The grammar, in which `NOT` binds tightest and `OR` loosest:

```text
OrChain  := AndChain (OR AndChain)*
AndChain := Unary (AND Unary)*
Unary    := NOT Unary | Primary
Primary  := name | TRUE | FALSE | ( OrChain )
```

Chains group to the left. The tokens are read from left to right by a machine that holds, for each
parenthesis still open, what stands there to the left of a pending `OR`, what stands to the left of
a pending `AND`, and how many `NOT`s wait for their operand. The machine refuses a token at once if
no formula can go on with it, and then hands out the subformulas it has completed so far.

Main definitions:

* `Reading`: a state of the machine, and `Reading.step`: what one token does to it;
* `Formula.read`: the formula a whole text stands for.
-/

namespace Propositional

/-- The unfinished formula inside one pair of parentheses: what stands to the left of a pending `OR`
and of a pending `AND`, and how many `NOT`s stand in front of the operand to come. -/
structure Level where
  disjuncts : Option Formula := none
  conjuncts : Option Formula := none
  negations : Nat := 0
  deriving DecidableEq, Repr

namespace Level

def join (op : Connective) (left : Option Formula) (right : Formula) : Formula :=
  match left with
  | none => right
  | some left => .binary op left right

def conjunction (l : Level) (operand : Formula) : Formula :=
  join .and l.conjuncts (operand.negated l.negations)

def disjunction (l : Level) (operand : Formula) : Formula :=
  join .or l.disjuncts (l.conjunction operand)

def completed (l : Level) : List Formula := l.disjuncts.toList ++ l.conjuncts.toList

end Level

/-- What was read last at the innermost level. -/
inductive Focus where
  | due
  | leaf (operand : Formula)
  | group (inner : Formula)
  deriving DecidableEq, Repr

namespace Focus

def operand? : Focus → Option Formula
  | due => none
  | leaf operand => some operand
  | group inner => some (.parens inner)

/-- An operand is completed by the token after it; until then only the inside of a group is. -/
def completed : Focus → List Formula
  | group inner => [inner]
  | _ => []

end Focus

structure Reading where
  -- From the inside to the outside.
  outer : List Level := []
  level : Level := {}
  focus : Focus := .due
  deriving DecidableEq, Repr

/-- A failure to read a formula: its cause, and the subformulas that were complete when it
arose, from left to right. -/
structure Unreadable where
  error : SyntaxError
  completed : List Formula
  deriving DecidableEq, Repr

namespace Reading

def operandStarts : List Token.Kind := [.not, .ident, .true, .false, .openParen]

def operandFollows (r : Reading) : List Token.Kind :=
  [.and, .or, if r.outer.isEmpty then .eof else .closeParen]

def completedOuter (r : Reading) : List Formula := r.outer.reverse.flatMap Level.completed

def completed (r : Reading) : List Formula :=
  r.completedOuter ++ r.level.completed ++ r.focus.completed

def refuse {α : Type} (token : Token) (expected : List Token.Kind) (completed : List Formula) :
    Except Unreadable α :=
  .error ⟨.unexpectedToken token.kind token.text expected token.offset, completed⟩

def stepDue (r : Reading) (token : Token) : Except Unreadable Reading :=
  match token.kind with
  | .not => .ok { r with level := { r.level with negations := r.level.negations + 1 } }
  | .ident => .ok { r with focus := .leaf (.id token.text) }
  | .true => .ok { r with focus := .leaf (.literal true) }
  | .false => .ok { r with focus := .leaf (.literal false) }
  | .openParen => .ok { outer := r.level :: r.outer }
  | _ => refuse token operandStarts r.completed

def stepAfter (r : Reading) (operand : Formula) (token : Token) : Except Unreadable Reading :=
  let chain := r.level.disjunction operand
  let refused := refuse token r.operandFollows (r.completedOuter ++ [chain])
  match token.kind with
  | .and =>
    .ok { r with
      level := { disjuncts := r.level.disjuncts, conjuncts := some (r.level.conjunction operand) }
      focus := .due }
  | .or => .ok { r with level := { disjuncts := some chain }, focus := .due }
  | .closeParen =>
    match r.outer with
    | [] => refused
    | level :: outer => .ok { outer, level, focus := .group chain }
  | _ => refused

def step (r : Reading) (token : Token) : Except Unreadable Reading :=
  match r.focus.operand? with
  | none => r.stepDue token
  | some operand => r.stepAfter operand token

def finish (r : Reading) : Except Unreadable Formula :=
  match r.focus.operand? with
  | none => .error ⟨.unexpectedEnd operandStarts, r.completed⟩
  | some operand =>
    let chain := r.level.disjunction operand
    if r.outer.isEmpty then .ok chain
    else .error ⟨.unexpectedEnd r.operandFollows, r.completedOuter ++ [chain]⟩

def run (ending : Except SyntaxError Token) (r : Reading) : List Token → Except Unreadable Formula
  | [] =>
    match ending with
    | .ok _ => r.finish
    | .error e => .error ⟨e, r.completed⟩
  | token :: later =>
    match r.step token with
    | .ok r => r.run ending later
    | .error e => .error e

end Reading

def Formula.read (input : String) : Except Unreadable Formula :=
  let scan := (Lexer.ofString input).scan
  ({} : Reading).run scan.ending scan.tokens

end Propositional
