import Propositional.Proofs.Formula.Reader

/-!
# Viable prefixes

Tokens are viable if more of them can make a sentence of the grammar. What a reader has gone over is
viable, since an operand and the closing parentheses that are missing complete it, and a reader goes
over everything that is viable. So a reader refuses the first token with which no sentence can go on,
and the kinds that it then says it expected are those with which one can.
-/

namespace Propositional

/-- The tokens derive from the grammar. -/
def IsSentence (ts : List Token) : Prop := ∃ d : Derivation (.chain .or), d.tokens = ts

/-- The tokens can be continued to a sentence. -/
def IsViable (ts : List Token) : Prop := ∃ later, IsSentence (ts ++ later)

/-- A token of this kind can come next. The end mark can if the tokens are a sentence. -/
def CanFollow (ts : List Token) (kind : Token.Kind) : Prop :=
  if kind = .eof then IsSentence ts else ∃ token, token.kind = kind ∧ IsViable (ts ++ [token])

theorem IsSentence.isViable {ts : List Token} (sentence : IsSentence ts) : IsViable ts :=
  ⟨[], by rwa [List.append_nil]⟩

theorem IsViable.of_append {ts us : List Token} (viable : IsViable (ts ++ us)) : IsViable ts := by
  obtain ⟨later, sentence⟩ := viable
  exact ⟨us ++ later, by rwa [← List.append_assoc]⟩

namespace Reading

variable {r : Reading} {ts us : List Token} {token : Token} {failure : Unreadable}

/-! ### Completing what was read -/

theorem SpellsOuter.close {outer : List Level} (spelled : SpellsOuter outer ts)
    (d : Derivation (.chain .or)) : IsViable (ts ++ d.tokens) := by
  induction outer generalizing ts d with
  | nil =>
    obtain rfl : ts = [] := spelled
    exact ⟨[], d, by simp⟩
  | cons level beyond ih =>
    -- The group that is closed here is the operand that the level outside waits for.
    obtain ⟨before, inside, opening, rfl, outside, waiting, isOpening⟩ := spelled
    let closing : Token := ⟨.closeParen, ")", 0⟩
    obtain ⟨e, tokens, -⟩ := waiting.exists_chain (.group opening isOpening d closing rfl)
    obtain ⟨later, sentence⟩ := ih outside e
    refine ⟨closing :: later, ?_⟩
    rw [tokens] at sentence
    simpa [Derivation.tokens] using sentence

theorem Spells.isViable (spelled : r.Spells ts) : IsViable ts := by
  cases read : r.focus.operand? with
  | some operand =>
    obtain ⟨outside, inside, atom, rfl, outer, level, -⟩ := spelled.operand read
    obtain ⟨d, tokens, -⟩ := level.exists_chain atom
    rw [← tokens]
    exact outer.close d
  | none =>
    -- An operand is due, and any name is one.
    obtain ⟨outside, inside, last, rfl, outer, level, focus⟩ := spelled
    rw [SpellsFocus, read] at focus
    subst focus
    let name : Token := ⟨.ident, "x", 0⟩
    obtain ⟨d, tokens, -⟩ := level.exists_chain (.name name rfl)
    have closed := outer.close d
    rw [tokens, ← List.append_assoc] at closed
    rw [List.append_nil]
    exact closed.of_append

theorem isViable_iff : IsViable ts ↔ ∃ r, ts.foldlM step ({} : Reading) = .ok r := by
  constructor
  · rintro ⟨later, d, tokens⟩
    obtain ⟨r', went, -⟩ := goes_over (r := {}) d ⟨rfl, rfl⟩
    rw [tokens, List.foldlM_append] at went
    cases first : ts.foldlM step ({} : Reading) with
    | error failure => simp [first, bind, Except.bind] at went
    | ok r => exact ⟨r, rfl⟩
  · rintro ⟨r, went⟩
    exact (foldlM_step_spells spells_start went).isViable

theorem isSentence_iff (went : ts.foldlM step ({} : Reading) = .ok r) :
    IsSentence ts ↔ ∃ f, r.finish = .ok f := by
  constructor
  · rintro ⟨d, rfl⟩
    have read := run_derivation d ⟨.eof, "", 0⟩
    rw [run_eq, went] at read
    exact ⟨d.formula, read⟩
  · rintro ⟨f, finished⟩
    obtain ⟨d, tokens, -⟩ := exists_derivation_of_finish (foldlM_step_spells spells_start went) finished
    exact ⟨d, tokens⟩

theorem isViable_append_iff (went : ts.foldlM step ({} : Reading) = .ok r) :
    IsViable (ts ++ [token]) ↔ ∃ r', r.step token = .ok r' := by
  have last : (ts ++ [token]).foldlM step ({} : Reading) = r.step token := by
    rw [foldlM_step_append went, List.foldlM_cons]
    cases r.step token <;> rfl
  rw [isViable_iff, last]

/-! ### What is expected -/

/-- The kinds that can come next in this state. -/
def expected (r : Reading) : List Token.Kind :=
  match r.focus.operand? with
  | none => operandStarts
  | some _ => r.operandFollows

theorem step_eq_error (refused : r.step token = .error failure) :
    failure.error = .unexpectedToken token.kind token.text r.expected token.offset := by
  unfold step at refused
  split at refused
  · rename_i due
    rw [expected, due]
    unfold stepDue refuse at refused
    split at refused
    all_goals cases refused
    rfl
  · rename_i operand read
    rw [expected, read]
    unfold stepAfter refuse at refused
    dsimp only at refused
    split at refused
    · cases refused
    · cases refused
    · -- A parenthesis is refused only if there is none to close.
      split at refused
      · cases refused
        rfl
      · cases refused
    · cases refused
      rfl

theorem exists_step_iff : (∃ r', r.step token = .ok r') ↔ token.kind ≠ .eof ∧ token.kind ∈ r.expected := by
  obtain ⟨kind, text, offset⟩ := token
  unfold step expected
  cases r.focus.operand? with
  | none => cases kind <;> simp [stepDue, operandStarts, refuse]
  | some operand =>
    cases outer : r.outer <;> cases kind <;> simp [stepAfter, operandFollows, refuse, outer]

theorem exists_finish_iff : (∃ f, r.finish = .ok f) ↔ .eof ∈ r.expected := by
  unfold finish expected
  cases r.focus.operand? with
  | none => simp [operandStarts]
  | some operand => cases outer : r.outer <;> simp [operandFollows, outer]

theorem finish_eq_error (refused : r.finish = .error failure) :
    failure.error = .unexpectedEnd r.expected := by
  unfold finish at refused
  split at refused
  · rename_i due
    rw [expected, due]
    cases refused
    rfl
  · rename_i operand read
    rw [expected, read]
    dsimp only at refused
    split at refused
    all_goals cases refused
    rfl

/-- The kinds that a reader expects are those with which a sentence can go on. -/
theorem mem_expected_iff (went : ts.foldlM step ({} : Reading) = .ok r) (kind : Token.Kind) :
    kind ∈ r.expected ↔ CanFollow ts kind := by
  unfold CanFollow
  split
  · rename_i last
    rw [isSentence_iff went, exists_finish_iff, last]
  · rename_i more
    constructor
    · intro member
      refine ⟨⟨kind, "", 0⟩, rfl, (isViable_append_iff went).mpr ?_⟩
      exact exists_step_iff.mpr ⟨more, member⟩
    · rintro ⟨token, rfl, viable⟩
      exact (exists_step_iff.mp ((isViable_append_iff went).mp viable)).2

/-! ### The first token that is refused -/

theorem exists_refused (failed : us.foldlM step r = .error failure) :
    ∃ before token after r', us = before ++ token :: after ∧ before.foldlM step r = .ok r' ∧
      r'.step token = .error failure := by
  induction us generalizing r with
  | nil => cases failed
  | cons token later ih =>
    rw [List.foldlM_cons] at failed
    cases stepped : r.step token with
    | error e =>
      rw [stepped] at failed
      exact ⟨[], token, later, r, rfl, rfl, stepped.trans failed⟩
    | ok r₁ =>
      rw [stepped] at failed
      obtain ⟨before, refused, after, r', rfl, went, last⟩ := ih failed
      refine ⟨token :: before, refused, after, r', rfl, ?_, last⟩
      rw [foldlM_step_cons stepped, went]

end Reading

end Propositional
