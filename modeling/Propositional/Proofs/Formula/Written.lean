import Propositional.Proofs.Arena.Reading
import Propositional.Proofs.Formula.Reader
import Propositional.Proofs.Token.Lexer

/-!
# Written formulas

The text of a formula has parentheses where they are nodes, and others where it would be read as
another tree without them. Reading it back gives the formula with nodes for the latter, and this has
the same text.
-/

namespace Propositional

open Arena (needsParens notPrecedence literalText displayShape)

namespace Formula

variable {context : Nat} {isRight : Bool} {op : Connective} {left right : Formula}

/-- The text of a formula, below a node of strength `context` and as its right operand or not. -/
def text (f : Formula) : Nat → Bool → String := f.fold displayShape

/-- The formula with nodes for the parentheses that its text adds. -/
def grouped : Formula → Nat → Bool → Formula
  | binary op left right, context, isRight =>
    let inner := binary op (left.grouped op.precedence false) (right.grouped op.precedence true)
    if needsParens op context isRight then parens inner else inner
  | not operand, _, _ => not (operand.grouped notPrecedence false)
  | parens inner, _, _ => parens (inner.grouped 0 false)
  | id name, _, _ => id name
  | literal value, _, _ => literal value

def withoutParens : Formula → Formula
  | binary op left right => binary op left.withoutParens right.withoutParens
  | not operand => not operand.withoutParens
  | parens inner => inner.withoutParens
  | id name => id name
  | literal value => literal value

/-- The names of a formula, from left to right. -/
def occurrences : Formula → List String
  | binary _ left right => left.occurrences ++ right.occurrences
  | not operand => operand.occurrences
  | parens inner => inner.occurrences
  | id name => [name]
  | literal _ => []

/-- What the tokens of a formula say that is written as it is. -/
def spelling : Formula → List (Token.Kind × String)
  | binary op left right => left.spelling ++ (.ofConnective op, op.keyword) :: right.spelling
  | not operand => (.not, "NOT") :: operand.spelling
  | parens inner => (.openParen, "(") :: (inner.spelling ++ [(.closeParen, ")")])
  | id name => [(.ident, name)]
  | literal value => [(.ofLiteral value, literalText value)]

/-! ### Parentheses that the text adds -/

theorem grouped_of_needsParens (needed : needsParens op context isRight = true) :
    (binary op left right).grouped context isRight =
      parens (binary op (left.grouped op.precedence false) (right.grouped op.precedence true)) :=
  if_pos needed

theorem grouped_of_not_needsParens (free : needsParens op context isRight = false) :
    (binary op left right).grouped context isRight =
      binary op (left.grouped op.precedence false) (right.grouped op.precedence true) :=
  if_neg (by simp [free])

theorem eval_grouped (σ : String → Bool) (f : Formula) (context : Nat) (isRight : Bool) :
    (f.grouped context isRight).eval σ = f.eval σ := by
  induction f generalizing context isRight with
  | binary op left right ihl ihr =>
    rw [grouped]
    split <;> simp only [eval, ihl, ihr]
  | not operand ih | parens inner ih => simp only [grouped, eval, ih]
  | id name | literal value => rfl

theorem withoutParens_grouped (f : Formula) (context : Nat) (isRight : Bool) :
    (f.grouped context isRight).withoutParens = f.withoutParens := by
  induction f generalizing context isRight with
  | binary op left right ihl ihr =>
    rw [grouped]
    split <;> simp only [withoutParens, ihl, ihr]
  | not operand ih | parens inner ih => simp only [grouped, withoutParens, ih]
  | id name | literal value => rfl

theorem needsParens_zero (op : Connective) : needsParens op 0 false = false := by cases op <;> rfl

theorem text_of_needsParens (needed : needsParens op context isRight = true) :
    (binary op left right).text context isRight = "(" ++ (binary op left right).text 0 false ++ ")" := by
  simp only [text, fold, displayShape, needed, needsParens_zero, if_true, Bool.false_eq_true, if_false]

theorem text_of_not_needsParens (free : needsParens op context isRight = false) :
    (binary op left right).text context isRight =
      left.text op.precedence false ++ " " ++ op.keyword ++ " " ++ right.text op.precedence true := by
  simp only [text, fold, displayShape, free, Bool.false_eq_true, if_false]

theorem text_grouped (f : Formula) (context : Nat) (isRight : Bool) :
    (f.grouped context isRight).text context isRight = f.text context isRight := by
  induction f generalizing context isRight with
  | binary op left right ihl ihr =>
    cases needed : needsParens op context isRight with
    | true =>
      rw [grouped_of_needsParens needed, text_of_needsParens needed]
      change "(" ++ (binary op _ _).text 0 false ++ ")" = _
      rw [text_of_not_needsParens (needsParens_zero op), text_of_not_needsParens (needsParens_zero op), ihl, ihr]
    | false => rw [grouped_of_not_needsParens needed, text_of_not_needsParens needed,
        text_of_not_needsParens needed, ihl, ihr]
  | not operand ih => exact congrArg ("NOT " ++ ·) (ih notPrecedence false)
  | parens inner ih => exact congrArg ("(" ++ · ++ ")") (ih 0 false)
  | id name | literal value => rfl

/-! ### Tokens of the text -/

open Lexer in
theorem reads_keyword (op : Connective) (rest : List Char) :
    Reads (op.keyword.toList ++ ' ' :: rest) [(.ofConnective op, op.keyword)] (' ' :: rest) := by
  have word : isWord op.keyword.toList = true := by cases op <;> decide
  have reads := Reads.word word (endsWord_blank rest)
  rw [String.ofList_toList] at reads
  cases op <;> exact reads

open Lexer in
theorem reads_text (f : Formula) (names : ∀ name ∈ f.occurrences, IsName name) (context : Nat)
    (isRight : Bool) {rest : List Char} (ends : EndsWord rest) :
    Reads ((f.text context isRight).toList ++ rest) (f.grouped context isRight).spelling rest := by
  induction f generalizing context isRight rest with
  | binary op left right ihl ihr =>
    -- The operands and the keyword are kept apart by blanks, whatever ends the right operand.
    have inside : ∀ {rest}, EndsWord rest → Reads ((left.text op.precedence false).toList ++ ' ' ::
        (op.keyword.toList ++ ' ' :: ((right.text op.precedence true).toList ++ rest)))
        (binary op (left.grouped op.precedence false) (right.grouped op.precedence true)).spelling rest := by
      intro rest ends
      have first := ihl (fun name member => names name (List.mem_append_left _ member)) op.precedence false
        (endsWord_blank (op.keyword.toList ++ ' ' :: ((right.text op.precedence true).toList ++ rest)))
      have second := ihr (fun name member => names name (List.mem_append_right _ member)) op.precedence true ends
      have keyword := reads_keyword op ((right.text op.precedence true).toList ++ rest)
      exact first.append ((Reads.blank rfl).append (keyword.append ((Reads.blank rfl).append second)))
    cases needed : needsParens op context isRight with
    | true =>
      have whole := (Reads.openParen _).append ((inside (endsWord_closeParen rest)).append (Reads.closeParen rest))
      rw [text_of_needsParens needed, text_of_not_needsParens (needsParens_zero op), grouped_of_needsParens needed]
      simpa [spelling] using whole
    | false =>
      rw [text_of_not_needsParens needed, grouped_of_not_needsParens needed]
      simpa using inside ends
  | not operand ih =>
    have word : isWord "NOT".toList = true := by decide
    have keyword := Reads.word word (endsWord_blank ((operand.text notPrecedence false).toList ++ rest))
    have whole := keyword.append ((Reads.blank rfl).append (ih names notPrecedence false ends))
    simpa [spelling, text, fold, displayShape, grouped, Token.Kind.ofWord] using whole
  | parens inner ih =>
    have whole := (Reads.openParen _).append
      ((ih names 0 false (endsWord_closeParen rest)).append (Reads.closeParen rest))
    simpa [spelling, text, fold, displayShape, grouped] using whole
  | id name =>
    obtain ⟨word, kind⟩ := isName_iff.mp (names name (List.mem_singleton.mpr rfl))
    have reads := Reads.word word ends
    rwa [String.ofList_toList, kind] at reads
  | literal value =>
    have word : isWord (literalText value).toList = true := by cases value <;> decide
    have reads := Reads.word word ends
    rw [String.ofList_toList] at reads
    cases value <;> exact reads

/-! ### Derivations of the text -/

/-- The symbol of the grammar for what needs no parentheses in a place. -/
def symbolAt (context : Nat) (isRight : Bool) : Symbol :=
  if needsParens .or context isRight = false then .chain .or
  else if needsParens .and context isRight = false then .chain .and
  else .unary

theorem symbolAt_left (op : Connective) : symbolAt op.precedence false = .chain op := by cases op <;> rfl

theorem symbolAt_right (op : Connective) : symbolAt op.precedence true = .operand op := by cases op <;> rfl

theorem exists_of_unary (d : Derivation .unary) (context : Nat) (isRight : Bool) :
    ∃ e : Derivation (symbolAt context isRight), e.tokens = d.tokens ∧ e.formula = d.formula := by
  by_cases or : needsParens .or context isRight = false
  · rw [show symbolAt context isRight = .chain .or from if_pos or]
    exact ⟨.first (.first d), rfl, rfl⟩
  · by_cases and : needsParens .and context isRight = false
    · rw [show symbolAt context isRight = .chain .and from (if_neg or).trans (if_pos and)]
      exact ⟨.first d, rfl, rfl⟩
    · rw [show symbolAt context isRight = .unary from (if_neg or).trans (if_neg and)]
      exact ⟨d, rfl, rfl⟩

theorem exists_of_chain (free : needsParens op context isRight = false) (d : Derivation (.chain op)) :
    ∃ e : Derivation (symbolAt context isRight), e.tokens = d.tokens ∧ e.formula = d.formula := by
  by_cases or : needsParens .or context isRight = false
  · rw [show symbolAt context isRight = .chain .or from if_pos or]
    cases op with
    | or => exact ⟨d, rfl, rfl⟩
    | and => exact ⟨.first d, rfl, rfl⟩
  · cases op with
    | or => exact absurd free or
    | and =>
      rw [show symbolAt context isRight = .chain .and from (if_neg or).trans (if_pos free)]
      exact ⟨d, rfl, rfl⟩

theorem exists_of_parens {f : Formula} {tokens : List Token}
    (inside : ∀ {tokens : List Token}, tokens.map Token.lexeme = f.spelling →
      ∃ d : Derivation (.chain .or), d.tokens = tokens ∧ d.formula = f)
    (said : tokens.map Token.lexeme = (parens f).spelling) (context : Nat) (isRight : Bool) :
    ∃ d : Derivation (symbolAt context isRight), d.tokens = tokens ∧ d.formula = parens f := by
  obtain ⟨opening, later, rfl, saidOpening, said⟩ := List.map_eq_cons_iff.mp said
  obtain ⟨between, last, rfl, saidInside, said⟩ := List.map_eq_append_iff.mp said
  obtain ⟨closing, none, rfl, saidClosing, said⟩ := List.map_eq_cons_iff.mp said
  obtain rfl := List.map_eq_nil_iff.mp said
  obtain ⟨chain, rfl, rfl⟩ := inside saidInside
  exact exists_of_unary (.primary (.group opening (congrArg Prod.fst saidOpening) chain closing
    (congrArg Prod.fst saidClosing))) context isRight

/-- What is written for a connective without parentheses around it is a chain of it. -/
theorem exists_of_binary {left right : Formula} {tokens : List Token}
    (first : ∀ {tokens : List Token}, tokens.map Token.lexeme = left.spelling →
      ∃ d : Derivation (.chain op), d.tokens = tokens ∧ d.formula = left)
    (second : ∀ {tokens : List Token}, tokens.map Token.lexeme = right.spelling →
      ∃ d : Derivation (.operand op), d.tokens = tokens ∧ d.formula = right)
    (said : tokens.map Token.lexeme = (binary op left right).spelling) :
    ∃ d : Derivation (.chain op), d.tokens = tokens ∧ d.formula = binary op left right := by
  obtain ⟨before, after, rfl, saidLeft, said⟩ := List.map_eq_append_iff.mp said
  obtain ⟨keyword, after, rfl, saidKeyword, saidRight⟩ := List.map_eq_cons_iff.mp said
  obtain ⟨chain, rfl, rfl⟩ := first saidLeft
  obtain ⟨operand, rfl, rfl⟩ := second saidRight
  exact ⟨.more chain keyword (congrArg Prod.fst saidKeyword) operand, rfl, rfl⟩

/-- Tokens that say what a formula with all its parentheses is written like derive this formula. -/
theorem exists_derivation (f : Formula) (context : Nat) (isRight : Bool) {tokens : List Token}
    (said : tokens.map Token.lexeme = (f.grouped context isRight).spelling) :
    ∃ d : Derivation (symbolAt context isRight), d.tokens = tokens ∧ d.formula = f.grouped context isRight := by
  induction f generalizing context isRight tokens with
  | binary op left right ihl ihr =>
    have inside : ∀ {tokens : List Token}, tokens.map Token.lexeme =
        (binary op (left.grouped op.precedence false) (right.grouped op.precedence true)).spelling →
        ∃ d : Derivation (.chain op), d.tokens = tokens ∧
          d.formula = binary op (left.grouped op.precedence false) (right.grouped op.precedence true) :=
      exists_of_binary (fun said => symbolAt_left op ▸ ihl op.precedence false said)
        (fun said => symbolAt_right op ▸ ihr op.precedence true said)
    cases needed : needsParens op context isRight with
    | true =>
      rw [grouped_of_needsParens needed] at said ⊢
      refine exists_of_parens (fun said => ?_) said context isRight
      obtain ⟨chain, rfl, formula⟩ := inside said
      rw [← formula]
      exact exists_of_chain (needsParens_zero op) chain
    | false =>
      rw [grouped_of_not_needsParens needed] at said ⊢
      obtain ⟨chain, rfl, formula⟩ := inside said
      rw [← formula]
      exact exists_of_chain needed chain
  | not operand ih =>
    obtain ⟨keyword, later, rfl, saidKeyword, said⟩ := List.map_eq_cons_iff.mp said
    have below := ih notPrecedence false said
    rw [show symbolAt notPrecedence false = .unary from rfl] at below
    obtain ⟨d, rfl, formula⟩ := below
    have whole := exists_of_unary (.not keyword (congrArg Prod.fst saidKeyword) d) context isRight
    simpa only [Derivation.tokens, Derivation.formula, formula, grouped] using whole
  | parens inner ih => exact exists_of_parens (fun said => ih 0 false said) said context isRight
  | id name =>
    obtain ⟨token, none, rfl, saidName, said⟩ := List.map_eq_cons_iff.mp said
    obtain rfl := List.map_eq_nil_iff.mp said
    obtain ⟨isName, text⟩ := Prod.mk.inj saidName
    have whole := exists_of_unary (.primary (.name token isName)) context isRight
    simpa only [Derivation.tokens, Derivation.formula, text, grouped] using whole
  | literal value =>
    obtain ⟨token, none, rfl, saidLiteral, said⟩ := List.map_eq_cons_iff.mp said
    obtain rfl := List.map_eq_nil_iff.mp said
    exact exists_of_unary (.primary (.literal token value (congrArg Prod.fst saidLiteral))) context isRight

/-- Reading the text of a formula gives the formula with nodes for all its parentheses. -/
theorem read_text {f : Formula} (names : ∀ name ∈ f.occurrences, IsName name) :
    read (f.text 0 false) = .ok (f.grouped 0 false) := by
  have reads := reads_text f names 0 false Lexer.endsWord_nil
  rw [List.append_nil] at reads
  obtain ⟨tokens, eof, tokenized, said⟩ := reads.tokenize
  obtain ⟨d, rfl, formula⟩ := f.exists_derivation 0 false said
  exact read_eq_ok_iff.mpr ⟨eof, d, tokenized, formula⟩

end Formula

end Propositional
