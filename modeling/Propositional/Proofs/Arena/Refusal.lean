import Propositional.Proofs.Arena.Entry
import Propositional.Proofs.Formula.Prefix

/-!
# Texts that are refused

A text that stands for no formula is refused with an error that says exactly what is wrong with it:
the character that starts no token, the first token with which no sentence of the grammar can go on,
or the end if a sentence would have to go on there, and in the last two cases what could have stood
there instead. The arena is then as it was before.
-/

namespace Propositional

/-- What the error says about the text is right. -/
def SyntaxError.Describes (input : String) : SyntaxError → Prop
  | unexpectedChar c offset =>
    tokenize input = .error (.unexpectedChar c offset) ∧ IsViable (tokensOf input) ∧
      ∃ before after eof, input.toList = before ++ c :: after ∧ byteLength before = offset ∧
        Text.isBlank c = false ∧ startsToken c = false ∧
        tokenize (String.ofList before) = .ok (tokensOf input ++ [eof])
  | unexpectedToken found text expected offset =>
    ∃ before after, tokensOf input = before ++ ⟨found, text, offset⟩ :: after ∧ IsViable before ∧
      ¬ IsViable (before ++ [⟨found, text, offset⟩]) ∧ ∀ kind, kind ∈ expected ↔ CanFollow before kind
  | unexpectedEnd expected =>
    (∃ eof, tokenize input = .ok (tokensOf input ++ [eof])) ∧ IsViable (tokensOf input) ∧
      ¬ IsSentence (tokensOf input) ∧ ∀ kind, kind ∈ expected ↔ CanFollow (tokensOf input) kind

namespace Formula

open Reading

variable {input : String} {f : Formula} {failure : Unreadable}

theorem sentence_of_read (read : Formula.read input = .ok f) :
    (∃ eof, tokenize input = .ok (tokensOf input ++ [eof])) ∧ IsSentence (tokensOf input) := by
  obtain ⟨eof, d, tokenized, -⟩ := read_eq_ok_iff.mp read
  obtain ⟨last, -, same⟩ := tokenize_eq_ok_iff.mp tokenized
  have tokens : d.tokens = tokensOf input := List.append_inj_left' same rfl
  exact ⟨⟨eof, tokens ▸ tokenized⟩, d, tokens⟩

/-- A reader that fails says what is wrong with the text. -/
theorem describes_of_read (failed : Formula.read input = .error failure) :
    failure.error.Describes input := by
  have ran : ({} : Reading).run (Lexer.ofString input).scan.ending (tokensOf input) = .error failure := failed
  rw [run_eq] at ran
  cases went : (tokensOf input).foldlM step ({} : Reading) with
  | error e =>
    rw [went] at ran
    obtain rfl := Except.error.inj ran
    obtain ⟨before, token, after, r, split, reached, refused⟩ := exists_refused went
    rw [step_eq_error refused]
    refine ⟨before, after, split, isViable_iff.mpr ⟨r, reached⟩, ?_, mem_expected_iff reached⟩
    intro viable
    obtain ⟨r', stepped⟩ := (isViable_append_iff reached).mp viable
    rw [refused] at stepped
    cases stepped
  | ok r =>
    rw [went] at ran
    have viable : IsViable (tokensOf input) := isViable_iff.mpr ⟨r, went⟩
    cases ended : (Lexer.ofString input).scan.ending with
    | error e =>
      rw [ended] at ran
      obtain rfl := Except.error.inj ran
      have stopped := tokenize_eq_error_iff.mpr ended
      obtain ⟨before, c, after, eof, split, solid, starts, rfl, tokenized⟩ := tokenize_eq_error stopped
      exact ⟨stopped, viable, before, after, eof, split, rfl, solid, starts, tokenized⟩
    | ok eof =>
      rw [ended] at ran
      have finished : r.finish = .error failure := ran
      rw [finish_eq_error finished]
      refine ⟨⟨eof, tokenize_eq_ok_iff.mpr ⟨eof, ended, rfl⟩⟩, viable, ?_, mem_expected_iff went⟩
      rw [isSentence_iff went, finished]
      simp

end Formula

namespace Arena

variable {A B : Arena} {trees : List Tree} {h : Handle} {n : Node}

/-! ### The error -/

/-- A text that is refused is refused for what is wrong with it. It is refused at its end exactly if all
of it is tokens that could go on to a sentence and are none, at a token exactly if its tokens could
not, and at a character exactly if they could and something else comes after them. -/
theorem enter_error_exact (wellFormed : A.WellFormed) (input : String) :
    ∃ result B, A.enter input = .ok (result, B) ∧ (∀ e, result = .error e → e.Describes input) ∧
      ((∃ expected, result = .error (.unexpectedEnd expected)) ↔
        (∃ eof, tokenize input = .ok (tokensOf input ++ [eof])) ∧ IsViable (tokensOf input) ∧
          ¬ IsSentence (tokensOf input)) ∧
      ((∃ found text expected offset, result = .error (.unexpectedToken found text expected offset)) ↔
        ¬ IsViable (tokensOf input)) ∧
      ((∃ c offset, result = .error (.unexpectedChar c offset)) ↔
        (∃ e, tokenize input = .error e) ∧ IsViable (tokensOf input)) := by
  obtain ⟨trees, represents⟩ := wellFormed.exists_represents
  cases read : Formula.read input with
  | ok f =>
    obtain ⟨x, B, entered, -⟩ := represents.enter_ok read
    obtain ⟨⟨eof, tokenized⟩, sentence⟩ := Formula.sentence_of_read read
    refine ⟨.ok x.root, B, entered, by simp, ?_, ?_, ?_⟩
    · simp [sentence]
    · simp [sentence.isViable]
    · simp [tokenized]
  | error failure =>
    obtain ⟨B, entered, -⟩ := represents.enter_error read
    have describes := Formula.describes_of_read read
    refine ⟨.error failure.error, B, entered, fun e same => Except.error.inj same ▸ describes, ?_⟩
    generalize failure.error = e at describes
    cases e with
    | unexpectedChar c offset =>
      obtain ⟨stopped, viable, -⟩ := describes
      simp [stopped, viable]
    | unexpectedToken found text expected offset =>
      obtain ⟨before, after, split, -, refused, -⟩ := describes
      have lost : ¬ IsViable (tokensOf input) := by
        intro viable
        rw [split, List.append_cons] at viable
        exact refused viable.of_append
      simp [lost]
    | unexpectedEnd expected =>
      obtain ⟨⟨eof, tokenized⟩, viable, unfinished, -⟩ := describes
      simp [tokenized, viable, unfinished]

theorem enter_error_exact_negatedPair : ∃ B before after, negatedPair.enter "(a OR b) c" =
      .ok (.error (.unexpectedToken .ident "c" [.and, .or, .eof] 9), B) ∧
    tokensOf "(a OR b) c" = before ++ ⟨.ident, "c", 9⟩ :: after ∧ IsViable before ∧
    CanFollow before .eof ∧ ¬ CanFollow before .closeParen := by
  obtain ⟨result, B, entered, describes, -⟩ := enter_error_exact negatedPair_wellFormed "(a OR b) c"
  have computed : (negatedPair.enter "(a OR b) c").map Prod.fst =
      .ok (.error (.unexpectedToken .ident "c" [.and, .or, .eof] 9)) := by decide +kernel
  rw [entered] at computed
  obtain rfl := Except.ok.inj computed
  obtain ⟨before, after, split, viable, -, follow⟩ := describes _ rfl
  refine ⟨B, before, after, entered, split, viable, (follow .eof).mp (by decide), fun closing => ?_⟩
  exact absurd ((follow .closeParen).mpr closing) (by decide)

/-! ### The arena -/

theorem cell?_eq_of_represents (before : A.Represents trees) (after : B.Represents trees) (h : Handle) :
    B.cell? h = A.cell? h := by
  refine Option.ext fun n => ?_
  rw [after.owns.cell?_iff, before.owns.cell?_iff]

theorem isLive_of_cell?_eq (same : B.cell? h = A.cell? h) : B.isLive h = A.isLive h := by
  have values : B.table.value? h.index = A.table.value? h.index := same
  rw [isLive, isLive, Table.occupied, Table.occupied, values]

theorem node_eq_ok_iff : A.node h = .ok n ↔ A.cell? h = some n := ⟨cell?_of_node, node_of_cell?⟩

/-- A text that is refused leaves every node, the number of nodes and the list of roots as they were.
What was added for it is taken out again without a fault, and the vacant cells are free. -/
theorem enter_error_keeps (wellFormed : A.WellFormed) (input : String) :
    ∃ result B, A.enter input = .ok (result, B) ∧ ∀ e, result = .error e →
      (∀ h, B.isLive h = A.isLive h) ∧ (∀ h n, B.node h = .ok n ↔ A.node h = .ok n) ∧
        B.live = A.live ∧ B.roots = A.roots ∧ B.WellFormed := by
  obtain ⟨trees, represents⟩ := wellFormed.exists_represents
  cases read : Formula.read input with
  | ok f =>
    obtain ⟨x, B, entered, -⟩ := represents.enter_ok read
    exact ⟨.ok x.root, B, entered, by simp⟩
  | error failure =>
    obtain ⟨B, entered, represented, roots⟩ := represents.enter_error read
    have same := cell?_eq_of_represents represents represented
    refine ⟨.error failure.error, B, entered, fun e _ => ⟨fun h => isLive_of_cell?_eq (same h), ?_, ?_, roots, ?_⟩⟩
    · intro h n
      rw [node_eq_ok_iff, node_eq_ok_iff, same]
    · rw [represented.owns.live_eq.1, represents.owns.live_eq.1]
    · exact represented.wellFormed

theorem enter_error_keeps_negatedPair : ∃ e B, negatedPair.enter "NOT a OR (b AND" = .ok (.error e, B) ∧
    B.node ⟨4⟩ = .ok ⟨.not ⟨3⟩, some ⟨5⟩⟩ ∧ B.isLive ⟨6⟩ = .ok false ∧ B.live = 5 ∧ B.roots = [⟨5⟩] := by
  obtain ⟨result, B, entered, keeps⟩ := enter_error_keeps negatedPair_wellFormed "NOT a OR (b AND"
  have computed : (negatedPair.enter "NOT a OR (b AND").map Prod.fst =
      .ok (.error (.unexpectedEnd [.not, .ident, .true, .false, .openParen])) := by decide +kernel
  rw [entered] at computed
  obtain rfl := Except.ok.inj computed
  obtain ⟨live, nodes, count, roots, -⟩ := keeps _ rfl
  exact ⟨_, B, entered, (nodes ⟨4⟩ _).mpr rfl, live ⟨6⟩, count, roots⟩

end Arena

end Propositional
