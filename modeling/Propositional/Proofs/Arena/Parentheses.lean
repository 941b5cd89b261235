import Propositional.Proofs.Arena.RoundTrip

/-!
# The fewest parentheses

Each pair of parentheses that the text of a tree adds is one that every text of this tree needs. A text that
can be entered is read as a tree that has a node for each of its opening parentheses, and to take parentheses
out of such a tree never makes its own text need more of them.
-/

namespace Propositional

open Arena (needsParens notPrecedence literalText)

/-! ### Opening parentheses -/

def openings (text : String) : Nat := text.toList.count '('

theorem openings_append (first second : String) : openings (first ++ second) = openings first + openings second := by
  simp [openings, String.toList_append]

open Lexer in
theorem openings_word {word : String} (isWord : isWord word.toList = true) : openings word = 0 := by
  rw [openings, List.count_eq_zero]
  cases chars : word.toList with
  | nil => exact List.not_mem_nil
  | cons c later =>
    rw [chars] at isWord
    obtain ⟨-, notOpen, -, -, continued⟩ := isWord_cons_iff.mp isWord
    intro member
    rcases List.mem_cons.mp member with same | member
    · exact notOpen same.symm
    · have continues := continued '(' member
      rw [continuesWord_openParen] at continues
      cases continues

theorem openings_keyword (op : Connective) : openings op.keyword = 0 := by cases op <;> decide

theorem openings_literalText (value : Bool) : openings (literalText value) = 0 := by cases value <;> decide

theorem Spaced.count_openParen {chars : List Char} {words : List String} (spaced : Spaced chars words) :
    chars.count '(' = (words.map openings).sum := by
  induction spaced with
  | nil => rfl
  | @cons blanks rest word words blank later ih =>
    have solid : Text.isBlank '(' = false := by decide +kernel
    have none : blanks.count '(' = 0 := by
      rw [List.count_eq_zero]
      intro member
      have isBlank := blank '(' member
      rw [solid] at isBlank
      cases isBlank
    rw [List.count_append, List.count_append, none, Nat.zero_add, ih, List.map_cons, List.sum_cons, openings]

namespace Formula

def pairs : Formula → Nat
  | binary _ left right => left.pairs + right.pairs
  | not operand => operand.pairs
  | parens inner => inner.pairs + 1
  | id _ | literal _ => 0

/-- The text of a formula has the parentheses that are nodes and those that it adds, and no others. -/
theorem openings_text (f : Formula) (names : ∀ name ∈ f.occurrences, IsName name) (context : Nat)
    (isRight : Bool) : openings (f.text context isRight) = (f.grouped context isRight).pairs := by
  have blank : openings " " = 0 := rfl
  have opening : openings "(" = 1 := rfl
  have closing : openings ")" = 0 := rfl
  induction f generalizing context isRight with
  | binary op left right ihl ihr =>
    have first := ihl (fun name member => names name (List.mem_append_left _ member)) op.precedence false
    have second := ihr (fun name member => names name (List.mem_append_right _ member)) op.precedence true
    cases needed : needsParens op context isRight with
    | true =>
      rw [text_of_needsParens needed, text_of_not_needsParens (needsParens_zero op), grouped_of_needsParens needed]
      simp only [openings_append, openings_keyword, first, second, blank, opening, closing, pairs]
      omega
    | false =>
      rw [text_of_not_needsParens needed, grouped_of_not_needsParens needed]
      simp only [openings_append, openings_keyword, first, second, blank, pairs]
      omega
  | not operand ih =>
    have below := ih names notPrecedence false
    have word : openings "NOT " = 0 := rfl
    rw [show (not operand).text context isRight = "NOT " ++ operand.text notPrecedence false from rfl,
      openings_append, word, below, Nat.zero_add, grouped, pairs]
  | parens inner ih =>
    have inside := ih names 0 false
    rw [show (parens inner).text context isRight = "(" ++ inner.text 0 false ++ ")" from rfl, openings_append,
      openings_append, opening, closing, inside, grouped, pairs]
    omega
  | id name => exact openings_word (isName_iff.mp (names name (List.mem_singleton_self _))).1
  | literal value => exact openings_literalText value

/-- A formula that has been read has a node for each opening parenthesis of the text. -/
theorem openings_of_read {input : String} {f : Formula} (accepted : read input = .ok f) :
    openings input = f.pairs := by
  obtain ⟨names, grouped, tokens, again, tokenized, tokenized', said⟩ := tokenize_text_of_read accepted
  have texts : again.map Token.text = tokens.map Token.text := by
    have second : Prod.snd ∘ Token.lexeme = Token.text := rfl
    rw [← second, ← List.map_map, said, List.map_map]
  calc openings input
      = ((tokens.map Token.text).map openings).sum := (spaced_of_tokenize tokenized).count_openParen
    _ = openings (f.text 0 false) := by rw [← texts, ← (spaced_of_tokenize tokenized').count_openParen, openings]
    _ = f.pairs := by rw [f.openings_text names, grouped]

/-! ### Parentheses that a place asks for -/

/-- Wherever it stands, a formula is put in at most one pair of parentheses more than where it stands alone. -/
theorem pairs_grouped_le (f : Formula) (context : Nat) (isRight : Bool) :
    (f.grouped context isRight).pairs ≤ (f.grouped 0 false).pairs + 1 := by
  cases f with
  | binary op left right =>
    rw [grouped_of_not_needsParens (needsParens_zero op), grouped]
    split
    · exact Nat.le_refl _
    · exact Nat.le_succ _
  | _ => exact Nat.le_succ _

/-- A formula needs no more parentheses once those that are nodes have been taken out. -/
theorem pairs_grouped_withoutParens_le (f : Formula) (context : Nat) (isRight : Bool) :
    (f.withoutParens.grouped context isRight).pairs ≤ (f.grouped context isRight).pairs := by
  induction f generalizing context isRight with
  | binary op left right ihl ihr =>
    have first := ihl op.precedence false
    have second := ihr op.precedence true
    rw [withoutParens, grouped, grouped]
    split <;> simp only [pairs] <;> omega
  | not operand ih => exact ih notPrecedence false
  | parens inner ih =>
    -- The pair that is taken out makes up for the one that the place may ask for instead.
    calc (inner.withoutParens.grouped context isRight).pairs
        ≤ (inner.withoutParens.grouped 0 false).pairs + 1 := pairs_grouped_le _ context isRight
      _ ≤ (inner.grouped 0 false).pairs + 1 := Nat.succ_le_succ (ih 0 false)
  | id name | literal value => exact Nat.le_refl _

theorem occurrences_withoutParens (f : Formula) : f.withoutParens.occurrences = f.occurrences := by
  induction f with
  | binary op left right ihl ihr => rw [withoutParens, occurrences, occurrences, ihl, ihr]
  | not operand ih | parens inner ih => exact ih
  | id name | literal value => rfl

/-- No text that reads as a formula, parentheses aside, has fewer of them than the formula's own text. -/
theorem openings_text_le_of_read {input : String} {g : Formula} (accepted : read input = .ok g) :
    openings (g.withoutParens.text 0 false) ≤ openings input := by
  obtain ⟨names, grouped, -⟩ := tokenize_text_of_read accepted
  rw [← g.occurrences_withoutParens] at names
  rw [openings_text _ names, openings_of_read accepted]
  calc (g.withoutParens.grouped 0 false).pairs
      ≤ (g.grouped 0 false).pairs := pairs_grouped_withoutParens_le g 0 false
    _ = g.pairs := by rw [grouped]

end Formula

/-! ### Texts of a tree -/

namespace Arena

variable {A B : Arena} {h : Handle} {f : Formula} {text : String}

/-- The text can be entered in the arena, and the tree that this gives is the formula once its parentheses
are taken out. -/
def EntersAs (B : Arena) (text : String) (f : Formula) : Prop :=
  ∃ root B' g, B.enter text = .ok (.ok root, B') ∧ B'.formula root = .ok g ∧ g.withoutParens = f

theorem entersAs_iff (receiver : B.WellFormed) :
    B.EntersAs text f ↔ ∃ g, Formula.read text = .ok g ∧ g.withoutParens = f := by
  obtain ⟨trees, represents⟩ := receiver.exists_represents
  constructor
  · rintro ⟨root, B', g, entered, read, bare⟩
    cases accepted : Formula.read text with
    | error failure =>
      obtain ⟨B'', refused, -⟩ := represents.enter_error accepted
      rw [refused] at entered
      cases entered
    | ok g' =>
      obtain ⟨x, B'', entered', rfl, represented, -⟩ := represents.enter_ok accepted
      obtain ⟨same, rfl⟩ := Prod.mk.inj (Except.ok.inj (entered'.symm.trans entered))
      obtain rfl := Except.ok.inj same
      obtain rfl := Except.ok.inj ((represented.formula_root (by simp)).symm.trans read)
      exact ⟨_, rfl, bare⟩
  · rintro ⟨g, accepted, bare⟩
    obtain ⟨x, B', entered, rfl, represented, -⟩ := represents.enter_ok accepted
    exact ⟨x.root, B', _, entered, represented.formula_root (by simp), bare⟩

/-- The text of a tree that has no parentheses as nodes, and only names that can be read, is a text of this
tree, and of all its texts it has the fewest opening parentheses. -/
theorem display_fewest_parens (wellFormed : A.WellFormed) (live : A.isLive h = .ok true)
    (formula : A.formula h = .ok f) (bare : f.withoutParens = f)
    (names : ∀ list, A.occurrences h = .ok list → ∀ name ∈ list, IsName name) :
    ∃ text, A.display h = .ok text ∧ (∀ B : Arena, B.WellFormed → B.EntersAs text f) ∧
      ∀ (B : Arena) (input : String), B.WellFormed → B.EntersAs input f → openings text ≤ openings input := by
  obtain ⟨trees, represents⟩ := wellFormed.exists_represents
  obtain ⟨g, formula', displayed, listed, -⟩ := represents.readings live
  obtain rfl := Except.ok.inj (formula.symm.trans formula')
  refine ⟨f.text 0 false, displayed, fun B receiver => ?_, fun B input receiver enters => ?_⟩
  · refine (entersAs_iff receiver).mpr ⟨_, Formula.read_text (names _ listed), ?_⟩
    rw [f.withoutParens_grouped, bare]
  · obtain ⟨g, accepted, rfl⟩ := (entersAs_iff receiver).mp enters
    exact Formula.openings_text_le_of_read accepted

theorem display_fewest_parens_negatedPair : ∃ text, negatedPair.display ⟨4⟩ = .ok text ∧
    openings text ≤ openings "(NOT ((x) AND TRUE))" ∧ openings "(NOT ((x) AND TRUE))" = 3 := by
  have name : IsName "x" := ⟨⟨.ident, "x", 0⟩, ⟨.eof, "", 1⟩, by decide +kernel, rfl, rfl⟩
  have names : ∀ list, negatedPair.occurrences ⟨4⟩ = .ok list → ∀ name ∈ list, IsName name := by
    intro list listed
    obtain rfl := Except.ok.inj (show Except.ok ["x"] = _ from listed)
    simpa using name
  have formula : negatedPair.formula ⟨4⟩ = .ok (.not (.binary .and (.id "x") (.literal true))) := rfl
  obtain ⟨text, displayed, -, fewest⟩ := display_fewest_parens negatedPair_wellFormed rfl formula rfl names
  have accepted : Formula.read "(NOT ((x) AND TRUE))" =
      .ok (.parens (.not (.parens (.binary .and (.parens (.id "x")) (.literal true))))) := by decide +kernel
  have enters := (entersAs_iff negatedPair_wellFormed).mpr ⟨_, accepted, rfl⟩
  exact ⟨text, displayed, fewest negatedPair _ negatedPair_wellFormed enters, rfl⟩

end Arena

end Propositional
