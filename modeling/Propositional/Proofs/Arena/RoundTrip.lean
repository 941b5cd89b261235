import Propositional.Proofs.Arena.Entry
import Propositional.Proofs.Formula.Spelling

/-!
# Displayed nodes read back

The text of a node can be entered again if its names can be read, and the tree that this gives is the
subtree of the node with a pair of parentheses for each that the text has added. To a tree that has been
entered as a text none is added: it is displayed with the tokens of that text.
-/

namespace Propositional

/-- The name that a node is, if it is one. -/
def Shape.nameList : Shape Unit → List String
  | .id name => [name]
  | _ => []

theorem Formula.fold_occurrences (f : Formula) (others : List String) :
    f.fold (Arena.collectShape (fun _ => Shape.nameList) ⟨0⟩) others = f.occurrences ++ others := by
  induction f generalizing others with
  | binary op left right ihl ihr =>
    rw [occurrences, List.append_assoc, ← ihr, ← ihl]
    rfl
  | not operand ih | parens inner ih => exact ih others
  | id name | literal value => rfl

namespace Arena

variable {A B : Arena} {trees : List Tree} {h : Handle}

theorem occurrences_eq (A : Arena) (h : Handle) : A.occurrences h =
    (do return (← A.fold (fun _ => collectShape (fun _ => Shape.nameList) ⟨0⟩) h) []) := by
  rfl

namespace Represents

/-- The formula of a live node, from which all that is computed without handles follows. -/
theorem exists_formula (represents : A.Represents trees) (live : A.isLive h = .ok true) :
    ∃ f : Formula, ∀ {α : Type} (g : Shape α → α), A.fold (fun _ => g) h = .ok (f.fold g) ∨
      A.fold (fun _ => g) h = .ok (g (.root (f.fold g))) := by
  obtain ⟨n, held⟩ := cell?_of_isLive live
  rcases represents.locate_cell held with ⟨-, -, x, tree, rfl⟩ | ⟨C, t, rfl, rfl, -⟩
  · exact ⟨x.body.formula, fun g => Or.inr (represents.fold_root_formula tree g)⟩
  · exact ⟨t.formula, fun g => Or.inl (fold_term_formula g represents.holds represents.size_lt_bound)⟩

theorem readings (represents : A.Represents trees) (live : A.isLive h = .ok true) :
    ∃ f : Formula, A.formula h = .ok f ∧ A.display h = .ok (f.text 0 false) ∧
      A.occurrences h = .ok f.occurrences ∧ ∀ σ, A.eval σ h = .ok (f.eval σ) := by
  obtain ⟨f, folds⟩ := represents.exists_formula live
  refine ⟨f, ?_, ?_, ?_, fun σ => ?_⟩
  · rw [formula]
    rcases folds formulaShape with read | read <;> rw [read, fold_formulaShape]
    rfl
  · rw [display]
    rcases folds displayShape with read | read <;> rw [read] <;> rfl
  · have collected := f.fold_occurrences []
    rw [List.append_nil] at collected
    rw [← collected, occurrences_eq]
    rcases folds (collectShape (fun _ => Shape.nameList) ⟨0⟩) with read | read <;> rw [read] <;> rfl
  · rw [eval]
    rcases folds (evalShape σ) with read | read <;> rw [read, Formula.fold_evalShape]
    rfl

end Represents

/-- The text of a node whose names can all be read is entered without an error. What is below the new root
is the subtree of the node, with parentheses around each binary node that the text puts in parentheses.
So both have the same value, differ in parentheses only, and have the same text. -/
theorem enter_display (wellFormed : A.WellFormed) (receiver : B.WellFormed) (live : A.isLive h = .ok true)
    (names : ∀ list, A.occurrences h = .ok list → ∀ name ∈ list, IsName name) :
    ∃ text f root B', A.display h = .ok text ∧ A.formula h = .ok f ∧ B.enter text = .ok (.ok root, B') ∧
      B'.formula root = .ok (f.grouped 0 false) ∧ B'.display root = .ok text ∧
      (∀ σ, ∃ value, A.eval σ h = .ok value ∧ B'.eval σ root = .ok value) ∧
      (f.grouped 0 false).withoutParens = f.withoutParens := by
  obtain ⟨trees, represents⟩ := wellFormed.exists_represents
  obtain ⟨others, holds⟩ := receiver.exists_represents
  obtain ⟨f, formula, displayed, listed, evaluated⟩ := represents.readings live
  obtain ⟨x, B', entered, body, represented, -⟩ := holds.enter_ok (Formula.read_text (names _ listed))
  obtain ⟨rooted, -⟩ := represented.tree (x := x) (by simp)
  obtain ⟨g, formula', displayed', -, evaluated'⟩ := represented.readings (isLive_of_cell? rooted)
  have same : g = f.grouped 0 false := by
    rw [represented.formula_root (by simp), body] at formula'
    exact (Except.ok.inj formula').symm
  subst same
  refine ⟨f.text 0 false, f, x.root, B', displayed, formula, entered, formula', ?_, fun σ => ?_, ?_⟩
  · rw [displayed', f.text_grouped]
  · exact ⟨f.eval σ, evaluated σ, by rw [evaluated', f.eval_grouped]⟩
  · exact f.withoutParens_grouped 0 false

theorem enter_display_negatedPair : ∃ root B, negatedPair.enter "NOT (x AND TRUE)" = .ok (.ok root, B) ∧
    B.formula root = .ok (.not (.parens (.binary .and (.id "x") (.literal true)))) ∧
    B.display root = .ok "NOT (x AND TRUE)" := by
  have name : IsName "x" := ⟨⟨.ident, "x", 0⟩, ⟨.eof, "", 1⟩, by decide +kernel, rfl, rfl⟩
  have names : ∀ list, negatedPair.occurrences ⟨4⟩ = .ok list → ∀ name ∈ list, IsName name := by
    intro list listed
    obtain rfl := Except.ok.inj (show Except.ok ["x"] = _ from listed)
    simpa using name
  obtain ⟨text, f, root, B, displayed, formula, entered, read, again, -⟩ :=
    enter_display negatedPair_wellFormed negatedPair_wellFormed rfl names
  obtain rfl := Except.ok.inj (show Except.ok "NOT (x AND TRUE)" = _ from displayed)
  obtain rfl := Except.ok.inj
    (show Except.ok (Formula.not (.binary .and (.id "x") (.literal true))) = _ from formula)
  exact ⟨root, B, entered, read, again⟩

/-! ### Texts that have been entered -/

/-- A text that is entered and displayed again keeps its tokens, so that only white space differs, and
entered once more, anywhere, it gives an equal tree. -/
theorem display_enter {E : Arena} {input : String} {root : Handle} (wellFormed : A.WellFormed)
    (receiver : E.WellFormed) (entered : A.enter input = .ok (.ok root, B)) :
    ∃ text tokens again, B.display root = .ok text ∧ tokenize input = .ok tokens ∧ tokenize text = .ok again ∧
      again.map Token.lexeme = tokens.map Token.lexeme ∧ Spaced input.toList (tokens.map Token.text) ∧
      Spaced text.toList (tokens.map Token.text) ∧
      ∃ root' E', E.enter text = .ok (.ok root', E') ∧ B.structuralEqIn root E' root' = .ok true := by
  obtain ⟨trees, represents⟩ := wellFormed.exists_represents
  obtain ⟨others, holds⟩ := receiver.exists_represents
  cases accepted : Formula.read input with
  | error failure =>
    obtain ⟨B', refused, -⟩ := represents.enter_error accepted
    rw [refused] at entered
    cases entered
  | ok f =>
    obtain ⟨x, B', entered', rfl, represented, -⟩ := represents.enter_ok accepted
    obtain ⟨same, rfl⟩ := Prod.mk.inj (Except.ok.inj (entered'.symm.trans entered))
    obtain rfl := Except.ok.inj same
    obtain ⟨rooted, -⟩ := represented.tree (x := x) (by simp)
    obtain ⟨g, formula, displayed, -⟩ := represented.readings (isLive_of_cell? rooted)
    obtain rfl := Except.ok.inj ((represented.formula_root (by simp)).symm.trans formula)
    obtain ⟨names, grouped, tokens, again, tokenized, tokenized', said⟩ := Formula.tokenize_text_of_read accepted
    have texts : again.map Token.text = tokens.map Token.text := by
      have second : Prod.snd ∘ Token.lexeme = Token.text := rfl
      rw [← second, ← List.map_map, said, List.map_map]
    refine ⟨_, tokens, again, displayed, tokenized, tokenized', said, spaced_of_tokenize tokenized, ?_, ?_⟩
    · rw [← texts]
      exact spaced_of_tokenize tokenized'
    · obtain ⟨y, E', entered', body, represented', -⟩ := holds.enter_ok (Formula.read_text names)
      refine ⟨y.root, E', entered', ?_⟩
      rw [represented.structuralEqIn_root (by simp) represented' (by simp), body, grouped]
      simp

theorem display_enter_negatedPair : ∃ root B text tokens,
    negatedPair.enter "a  AND( NOT b OR TRUE)" = .ok (.ok root, B) ∧ B.display root = .ok text ∧
      tokenize text = .ok tokens ∧ tokens.map Token.lexeme = [(.ident, "a"), (.and, "AND"), (.openParen, "("),
        (.not, "NOT"), (.ident, "b"), (.or, "OR"), (.true, "TRUE"), (.closeParen, ")"), (.eof, "")] := by
  obtain ⟨trees, represents⟩ := negatedPair_wellFormed.exists_represents
  have accepted : Formula.read "a  AND( NOT b OR TRUE)" = .ok (.binary .and (.id "a")
      (.parens (.binary .or (.not (.id "b")) (.literal true)))) := by decide +kernel
  obtain ⟨x, B, entered, -⟩ := represents.enter_ok accepted
  obtain ⟨text, tokens, again, displayed, tokenized, tokenized', said, -⟩ :=
    display_enter negatedPair_wellFormed negatedPair_wellFormed entered
  refine ⟨x.root, B, text, again, entered, displayed, tokenized', said.trans ?_⟩
  have read : tokenize "a  AND( NOT b OR TRUE)" = .ok [⟨.ident, "a", 0⟩, ⟨.and, "AND", 3⟩, ⟨.openParen, "(", 6⟩,
      ⟨.not, "NOT", 8⟩, ⟨.ident, "b", 12⟩, ⟨.or, "OR", 14⟩, ⟨.true, "TRUE", 17⟩, ⟨.closeParen, ")", 21⟩,
      ⟨.eof, "", 22⟩] := by decide +kernel
  rw [read] at tokenized
  rw [← Except.ok.inj tokenized]
  rfl

end Arena

end Propositional
