import Propositional.Proofs.Formula.Written

/-!
# Formulas that have been read

Tokens of one kind all have the same text, unless they are names, so a formula tells what the tokens say
that it has been read from. No binary node of such a formula stands where its own text would put it in
parentheses. So this text has the same tokens again.
-/

namespace Propositional

open Arena (needsParens notPrecedence literalText)

namespace Token

variable {t : Token} {word : String}

theorem Kind.eq_of_ofWord_eq {other : String} (kinds : Kind.ofWord other = .ofWord word)
    (keyword : Kind.ofWord word ≠ .ident) : other = word := by
  unfold Kind.ofWord at kinds keyword
  grind

theorem Kind.ofWord_ne_paren (word : String) : Kind.ofWord word ≠ .openParen ∧ Kind.ofWord word ≠ .closeParen := by
  unfold Kind.ofWord
  grind

theorem Spelled.lexeme_of_word (spelled : t.Spelled) (kind : t.kind = .ofWord word)
    (keyword : Kind.ofWord word ≠ .ident) : t.lexeme = (t.kind, word) := by
  rcases spelled with lexeme | lexeme | ⟨-, own⟩
  · exact absurd (kind.symm.trans (congrArg Prod.fst lexeme)) (Kind.ofWord_ne_paren word).1
  · exact absurd (kind.symm.trans (congrArg Prod.fst lexeme)) (Kind.ofWord_ne_paren word).2
  · rw [lexeme, Kind.eq_of_ofWord_eq (own.symm.trans kind) keyword]

theorem Spelled.lexeme_of_paren (spelled : t.Spelled) :
    (t.kind = .openParen → t.lexeme = (.openParen, "(")) ∧
      (t.kind = .closeParen → t.lexeme = (.closeParen, ")")) := by
  rcases spelled with lexeme | lexeme | ⟨-, own⟩
  · have kind : t.kind = .openParen := congrArg Prod.fst lexeme
    simp [kind, lexeme]
  · have kind : t.kind = .closeParen := congrArg Prod.fst lexeme
    simp [kind, lexeme]
  · obtain ⟨notOpen, notClose⟩ := Kind.ofWord_ne_paren t.text
    rw [← own] at notOpen notClose
    exact ⟨fun kind => absurd kind notOpen, fun kind => absurd kind notClose⟩

end Token

/-! ### The tokens of a derivation -/

namespace Formula

theorem ident_mem_spelling {f : Formula} {name : String} (occurs : name ∈ f.occurrences) :
    (Token.Kind.ident, name) ∈ f.spelling := by
  induction f with
  | binary op left right ihl ihr =>
    rcases List.mem_append.mp occurs with occurs | occurs
    · exact List.mem_append_left _ (ihl occurs)
    · exact List.mem_append_right _ (List.mem_cons_of_mem _ (ihr occurs))
  | not operand ih => exact List.mem_cons_of_mem _ (ih occurs)
  | parens inner ih => exact List.mem_cons_of_mem _ (List.mem_append_left _ (ih occurs))
  | id other =>
    rw [List.mem_singleton.mp occurs]
    exact List.mem_singleton_self _
  | literal value => exact absurd occurs List.not_mem_nil

end Formula

/-- Whether nothing that the symbol derives needs parentheses in a place. -/
def Symbol.Fits : Symbol → Nat → Bool → Prop
  | chain op, context, isRight => needsParens op context isRight = false
  | unary, _, _ => True
  | primary, _, _ => True

theorem Symbol.Fits.operand {op : Connective} {context : Nat} {isRight : Bool}
    (fits : (chain op).Fits context isRight) : (Symbol.operand op).Fits context isRight := by
  cases op with
  | and => exact trivial
  | or =>
    show needsParens .and context isRight = false
    have free : needsParens .or context isRight = false := fits
    have weaker : Connective.or.precedence < Connective.and.precedence := by decide
    unfold needsParens at free ⊢
    grind

namespace Derivation

variable {s : Symbol}

theorem map_lexeme_tokens (d : Derivation s) (spelled : ∀ token ∈ d.tokens, token.Spelled) :
    d.tokens.map Token.lexeme = d.formula.spelling := by
  induction d with
  | first operand ih => exact ih spelled
  | @more op chain keyword isKeyword operand ihl ihr =>
    simp only [tokens, List.forall_mem_append, List.forall_mem_cons] at spelled
    obtain ⟨left, own, right⟩ := spelled
    have kind : Token.Kind.ofWord op.keyword = .ofConnective op := by cases op <;> rfl
    have lexeme := own.lexeme_of_word (isKeyword.trans kind.symm) (by rw [kind]; cases op <;> decide)
    rw [isKeyword] at lexeme
    simp only [tokens, formula, Formula.spelling, List.map_append, List.map_cons, ihl left, ihr right, lexeme]
  | not keyword isNot operand ih =>
    obtain ⟨own, below⟩ := List.forall_mem_cons.mp spelled
    have lexeme := own.lexeme_of_word (show keyword.kind = .ofWord "NOT" from isNot) (by decide)
    rw [isNot] at lexeme
    simp only [tokens, formula, Formula.spelling, List.map_cons, ih below, lexeme]
  | primary atom ih => exact ih spelled
  | name token isName =>
    simp only [tokens, formula, Formula.spelling, List.map_cons, List.map_nil, Token.lexeme, isName]
  | literal token value isLiteral =>
    have own := spelled token (List.mem_singleton_self _)
    have kind : Token.Kind.ofWord (literalText value) = .ofLiteral value := by cases value <;> rfl
    have lexeme := own.lexeme_of_word (isLiteral.trans kind.symm) (by rw [kind]; cases value <;> decide)
    rw [isLiteral] at lexeme
    simp only [tokens, formula, Formula.spelling, List.map_cons, List.map_nil, lexeme]
  | group opening isOpening inner closing isClosing ih =>
    simp only [tokens, List.forall_mem_append, List.forall_mem_cons] at spelled
    obtain ⟨first, inside, last, -⟩ := spelled
    simp only [tokens, formula, Formula.spelling, List.map_append, List.map_cons, List.map_nil, ih inside,
      first.lexeme_of_paren.1 isOpening, last.lexeme_of_paren.2 isClosing]

theorem isName_of_occurs (d : Derivation s) (spelled : ∀ token ∈ d.tokens, token.Spelled) {name : String}
    (occurs : name ∈ d.formula.occurrences) : IsName name := by
  have said := Formula.ident_mem_spelling occurs
  rw [← d.map_lexeme_tokens spelled] at said
  obtain ⟨token, member, lexeme⟩ := List.mem_map.mp said
  obtain ⟨isIdent, rfl⟩ := Prod.mk.inj lexeme
  exact isName_iff.mpr ((spelled token member).word_of_ident isIdent)

/-! ### No parentheses are missing -/

theorem grouped_formula (d : Derivation s) {context : Nat} {isRight : Bool} (fits : s.Fits context isRight) :
    d.formula.grouped context isRight = d.formula := by
  induction d generalizing context isRight with
  | first operand ih => exact ih fits.operand
  | @more op chain keyword isKeyword operand ihl ihr =>
    have left : (Symbol.chain op).Fits op.precedence false := by cases op <;> rfl
    have right : (Symbol.operand op).Fits op.precedence true := by cases op <;> trivial
    rw [formula, Formula.grouped_of_not_needsParens fits, ihl left, ihr right]
  | not keyword isNot operand ih =>
    have below : Symbol.unary.Fits notPrecedence false := trivial
    rw [formula, Formula.grouped, ih below]
  | primary atom ih => exact ih trivial
  | name token isName | literal token value isLiteral => rfl
  | group opening isOpening inner closing isClosing ih =>
    have inside : (Symbol.chain .or).Fits 0 false := rfl
    rw [formula, Formula.grouped, ih inside]

end Derivation

namespace Formula

/-- A text that reads as a formula has the tokens of the formula's own text. -/
theorem tokenize_text_of_read {input : String} {f : Formula} (accepted : read input = .ok f) :
    (∀ name ∈ f.occurrences, IsName name) ∧ f.grouped 0 false = f ∧
      ∃ tokens again, tokenize input = .ok tokens ∧ tokenize (f.text 0 false) = .ok again ∧
        again.map Token.lexeme = tokens.map Token.lexeme := by
  obtain ⟨eof, d, tokenized, rfl⟩ := read_eq_ok_iff.mp accepted
  obtain ⟨spelled, last⟩ := spelled_of_tokenize tokenized
  have names : ∀ name ∈ d.formula.occurrences, IsName name := fun _ occurs => d.isName_of_occurs spelled occurs
  have grouped : d.formula.grouped 0 false = d.formula := d.grouped_formula rfl
  have reads := reads_text d.formula names 0 false Lexer.endsWord_nil
  rw [List.append_nil, grouped, ← d.map_lexeme_tokens spelled] at reads
  obtain ⟨tokens, eof', tokenized', said⟩ := reads.tokenize
  obtain ⟨-, last'⟩ := spelled_of_tokenize tokenized'
  refine ⟨names, grouped, d.tokens ++ [eof], tokens ++ [eof'], tokenized, tokenized', ?_⟩
  simp only [List.map_append, List.map_cons, said, last, last']

end Formula

end Propositional
