import Propositional.Formula.Reader
import Propositional.Proofs.Formula.Grammar

/-!
# The reader follows the grammar

A reader that is ready for a symbol goes over the tokens of a derivation from it, and then holds the
tree of the derivation. Conversely, what a reader has gone over so far is spelled by what it holds:
chains that a pending keyword ends, `NOT`s in front of an operand to come, and open parentheses. So
a text is read as a formula if and only if its tokens have a derivation with that tree, and then they
have only one.
-/

namespace Propositional

theorem Formula.negated_not (n : Nat) (f : Formula) : (Formula.not f).negated n = .not (f.negated n) := by
  induction n with
  | zero => rfl
  | succ n ih => rw [negated, ih, negated]

namespace Reading

variable {s : Symbol} {r r' : Reading} {ts us : List Token} {f : Formula} {token : Token}

theorem run_eq (ending : Except SyntaxError Token) (r : Reading) (tokens : List Token) :
    r.run ending tokens = tokens.foldlM step r >>= fun r => r.run ending [] := by
  induction tokens generalizing r with
  | nil => rfl
  | cons token later ih =>
    rw [run, List.foldlM_cons]
    cases stepped : r.step token with
    | error e => rfl
    | ok r₁ => exact ih r₁

theorem foldlM_step_append {r₁ : Reading} (first : ts.foldlM step r = .ok r₁) :
    (ts ++ us).foldlM step r = us.foldlM step r₁ := by
  rw [List.foldlM_append, first]
  rfl

theorem foldlM_step_cons {r₁ : Reading} (first : r.step token = .ok r₁) :
    (token :: us).foldlM step r = us.foldlM step r₁ := by
  rw [List.foldlM_cons, first]
  rfl

/-! ### Going over a derivation -/

/-- What derives from the symbol can start here. -/
def Ready (s : Symbol) (r : Reading) : Prop :=
  r.focus = .due ∧
    match s with
    | .chain .or => r.level = {}
    | .chain .and => r.level.conjuncts = none ∧ r.level.negations = 0
    | .unary | .primary => True

/-- Between the two states, the formula was read as what derives from the symbol. -/
def Went (s : Symbol) (before : Reading) (f : Formula) (after : Reading) : Prop :=
  after.outer = before.outer ∧ ∃ operand, after.focus.operand? = some operand ∧
    match s with
    | .chain .or => after.level.disjunction operand = f
    | .chain .and =>
      after.level.disjuncts = before.level.disjuncts ∧ after.level.conjunction operand = f
    | .unary =>
      after.level.disjuncts = before.level.disjuncts ∧ after.level.conjuncts = before.level.conjuncts ∧
        operand.negated after.level.negations = f.negated before.level.negations
    | .primary => after.level = before.level ∧ operand = f

theorem step_of_due (due : r.focus = .due) : r.step token = r.stepDue token := by
  rw [step, due]
  rfl

theorem step_of_operand {operand : Formula} (read : r.focus.operand? = some operand) :
    r.step token = r.stepAfter operand token := by
  rw [step, read]

theorem Ready.operand {op : Connective} (ready : Ready (.chain op) r) : Ready (.operand op) r := by
  obtain ⟨due, fresh⟩ := ready
  cases op with
  | and => exact ⟨due, trivial⟩
  | or =>
    have level : r.level = {} := fresh
    exact ⟨due, by rw [level], by rw [level]⟩

theorem Went.first {op : Connective} (ready : Ready (.chain op) r) (went : Went (.operand op) r f r') :
    Went (.chain op) r f r' := by
  obtain ⟨due, fresh⟩ := ready
  cases op with
  | and =>
    obtain ⟨outer, x, read, disjuncts, conjuncts, negated⟩ := went
    refine ⟨outer, x, read, disjuncts, ?_⟩
    rw [Level.conjunction, conjuncts, fresh.1, negated, fresh.2]
    rfl
  | or =>
    obtain ⟨outer, x, read, disjuncts, conjunction⟩ := went
    have level : r.level = {} := fresh
    refine ⟨outer, x, read, ?_⟩
    dsimp only
    rw [Level.disjunction, disjuncts, conjunction, level]
    rfl

/-- The state behind a keyword, with what stands in front of the keyword. -/
def pending (r : Reading) : Connective → Formula → Reading
  | .and, f => { outer := r.outer, level := { disjuncts := r.level.disjuncts, conjuncts := some f } }
  | .or, f => { outer := r.outer, level := { disjuncts := some f } }

theorem ready_pending (r : Reading) (op : Connective) (f : Formula) : Ready (.operand op) (r.pending op f) := by
  cases op with
  | and => exact ⟨rfl, trivial⟩
  | or => exact ⟨rfl, rfl, rfl⟩

theorem Went.step_keyword {op : Connective} (went : Went (.chain op) r f r')
    (isKeyword : token.kind = .ofConnective op) : r'.step token = .ok (r.pending op f) := by
  obtain ⟨outer, x, read, rest⟩ := went
  rw [step_of_operand read, stepAfter, isKeyword]
  cases op with
  | and =>
    obtain ⟨disjuncts, conjunction⟩ := rest
    dsimp only [Token.Kind.ofConnective, pending]
    rw [disjuncts, conjunction, outer]
  | or =>
    have disjunction : r'.level.disjunction x = f := rest
    dsimp only [Token.Kind.ofConnective, pending]
    rw [disjunction, outer]

theorem Went.more {op : Connective} {g : Formula} (went : Went (.operand op) (r.pending op f) g r') :
    Went (.chain op) r (.binary op f g) r' := by
  cases op with
  | and =>
    obtain ⟨outer, x, read, disjuncts, conjuncts, negated⟩ := went
    refine ⟨outer, x, read, disjuncts, ?_⟩
    rw [Level.conjunction, conjuncts, negated]
    rfl
  | or =>
    obtain ⟨outer, x, read, disjuncts, conjunction⟩ := went
    refine ⟨outer, x, read, ?_⟩
    dsimp only
    rw [Level.disjunction, disjuncts, conjunction]
    rfl

def denied (r : Reading) : Reading := { r with level := { r.level with negations := r.level.negations + 1 } }

theorem step_not (due : r.focus = .due) (isNot : token.kind = .not) : r.step token = .ok r.denied := by
  rw [step_of_due due, stepDue, isNot]
  rfl

theorem Went.not (went : Went .unary r.denied f r') : Went .unary r (.not f) r' := by
  obtain ⟨outer, x, read, disjuncts, conjuncts, negated⟩ := went
  refine ⟨outer, x, read, disjuncts, conjuncts, ?_⟩
  rw [negated, Formula.negated_not]
  rfl

theorem Went.primary (went : Went .primary r f r') : Went .unary r f r' := by
  obtain ⟨outer, x, read, level, rfl⟩ := went
  exact ⟨outer, _, read, by rw [level], by rw [level], by rw [level]⟩

theorem step_name (due : r.focus = .due) (isName : token.kind = .ident) :
    r.step token = .ok { r with focus := .leaf (.id token.text) } := by
  rw [step_of_due due, stepDue, isName]

theorem step_literal {value : Bool} (due : r.focus = .due) (isLiteral : token.kind = .ofLiteral value) :
    r.step token = .ok { r with focus := .leaf (.literal value) } := by
  rw [step_of_due due, stepDue, isLiteral]
  cases value <;> rfl

theorem went_leaf (r : Reading) (f : Formula) : Went .primary r f { r with focus := .leaf f } :=
  ⟨rfl, f, rfl, rfl, rfl⟩

def opened (r : Reading) : Reading := { outer := r.level :: r.outer }

theorem step_open (due : r.focus = .due) (isOpening : token.kind = .openParen) : r.step token = .ok r.opened := by
  rw [step_of_due due, stepDue, isOpening]
  rfl

theorem Went.step_close (went : Went (.chain .or) r.opened f r') (isClosing : token.kind = .closeParen) :
    r'.step token = .ok { r with focus := .group f } := by
  obtain ⟨outer, x, read, disjunction⟩ := went
  rw [step_of_operand read, stepAfter, isClosing]
  dsimp only [opened] at outer disjunction ⊢
  rw [outer, disjunction]

theorem went_group (r : Reading) (f : Formula) : Went .primary r (.parens f) { r with focus := .group f } :=
  ⟨rfl, .parens f, rfl, rfl, rfl⟩

theorem goes_over (d : Derivation s) (ready : Ready s r) :
    ∃ r', d.tokens.foldlM step r = .ok r' ∧ Went s r d.formula r' := by
  induction d generalizing r with
  | first operand ih =>
    obtain ⟨r', went_over, went⟩ := ih ready.operand
    exact ⟨r', went_over, went.first ready⟩
  | more chain keyword isKeyword operand ihl ihr =>
    obtain ⟨r₁, first, went₁⟩ := ihl ready
    obtain ⟨r₂, second, went₂⟩ := ihr (ready_pending _ _ _)
    refine ⟨r₂, ?_, went₂.more⟩
    rw [Derivation.tokens, foldlM_step_append first, foldlM_step_cons (went₁.step_keyword isKeyword), second]
  | not keyword isNot operand ih =>
    obtain ⟨r', rest, went⟩ := ih (r := r.denied) ⟨ready.1, trivial⟩
    refine ⟨r', ?_, went.not⟩
    rw [Derivation.tokens, foldlM_step_cons (step_not ready.1 isNot), rest]
  | primary atom ih =>
    obtain ⟨r', rest, went⟩ := ih ⟨ready.1, trivial⟩
    exact ⟨r', rest, went.primary⟩
  | name token isName =>
    refine ⟨_, ?_, went_leaf r _⟩
    rw [Derivation.tokens, foldlM_step_cons (step_name ready.1 isName)]
    rfl
  | literal token value isLiteral =>
    refine ⟨_, ?_, went_leaf r _⟩
    rw [Derivation.tokens, foldlM_step_cons (step_literal ready.1 isLiteral)]
    rfl
  | group opening isOpening inner closing isClosing ih =>
    obtain ⟨r', inside, went⟩ := ih (r := r.opened) ⟨rfl, rfl⟩
    refine ⟨_, ?_, went_group r _⟩
    rw [Derivation.tokens, foldlM_step_cons (step_open ready.1 isOpening), foldlM_step_append inside,
      foldlM_step_cons (went.step_close isClosing)]
    rfl

/-! ### What a state spells -/

/-- The tokens are a chain with the keyword after it, or there is nothing. -/
inductive SpellsLeft (op : Connective) : Option Formula → List Token → Prop
  | nothing : SpellsLeft op none []
  | chain (d : Derivation (.chain op)) (keyword : Token) (isKeyword : keyword.kind = .ofConnective op) :
      SpellsLeft op (some d.formula) (d.tokens ++ [keyword])

/-- The tokens are those of a level: two pending chains, the wider one first, and some `NOT`s. -/
def SpellsLevel (l : Level) (ts : List Token) : Prop :=
  ∃ wide narrow nots, ts = wide ++ narrow ++ nots ∧ SpellsLeft .or l.disjuncts wide ∧
    SpellsLeft .and l.conjuncts narrow ∧ nots.length = l.negations ∧ ∀ token ∈ nots, token.kind = .not

/-- The tokens are those of the levels outside an open parenthesis, which is the last of them. -/
def SpellsOuter : List Level → List Token → Prop
  | [], ts => ts = []
  | level :: outer, ts =>
    ∃ before inside opening, ts = before ++ inside ++ [opening] ∧ SpellsOuter outer before ∧
      SpellsLevel level inside ∧ opening.kind = .openParen

def SpellsFocus (focus : Focus) (ts : List Token) : Prop :=
  match focus.operand? with
  | none => ts = []
  | some operand => ∃ d : Derivation .primary, d.tokens = ts ∧ d.formula = operand

/-- The tokens are those that lead to the state. -/
def Spells (r : Reading) (ts : List Token) : Prop :=
  ∃ outside inside last, ts = outside ++ inside ++ last ∧ SpellsOuter r.outer outside ∧
    SpellsLevel r.level inside ∧ SpellsFocus r.focus last

theorem spellsLevel_empty : SpellsLevel {} [] := ⟨[], [], [], rfl, .nothing, .nothing, rfl, by simp⟩

theorem SpellsLeft.join {op : Connective} {left : Option Formula} (spelled : SpellsLeft op left ts)
    (operand : Derivation (.operand op)) :
    ∃ d : Derivation (.chain op), d.tokens = ts ++ operand.tokens ∧
      d.formula = Level.join op left operand.formula := by
  cases spelled with
  | nothing => exact ⟨.first operand, rfl, rfl⟩
  | chain d keyword isKeyword =>
    refine ⟨.more d keyword isKeyword operand, ?_, rfl⟩
    rw [Derivation.tokens, List.append_assoc, List.singleton_append]

theorem exists_unary (atom : Derivation .primary) (nots : List Token)
    (isNot : ∀ token ∈ nots, token.kind = .not) :
    ∃ d : Derivation .unary, d.tokens = nots ++ atom.tokens ∧
      d.formula = atom.formula.negated nots.length := by
  induction nots with
  | nil => exact ⟨.primary atom, rfl, rfl⟩
  | cons token later ih =>
    obtain ⟨d, tokens, formula⟩ := ih (fun token member => isNot token (List.mem_cons_of_mem _ member))
    refine ⟨.not token (isNot token List.mem_cons_self) d, ?_, ?_⟩
    · rw [Derivation.tokens, tokens, List.cons_append]
    · rw [Derivation.formula, formula, List.length_cons, Formula.negated]

theorem SpellsLevel.complete {l : Level} (spelled : SpellsLevel l ts) (atom : Derivation .primary) :
    ∃ wide narrow, ∃ d : Derivation (.chain .and), ts ++ atom.tokens = wide ++ narrow ∧
      SpellsLeft .or l.disjuncts wide ∧ d.tokens = narrow ∧ d.formula = l.conjunction atom.formula := by
  obtain ⟨wide, narrow, nots, rfl, wider, narrower, count, isNot⟩ := spelled
  obtain ⟨unary, tokens, formula⟩ := exists_unary atom nots isNot
  obtain ⟨d, tokens', formula'⟩ := narrower.join unary
  refine ⟨wide, narrow ++ (nots ++ atom.tokens), d, by simp, wider, ?_, ?_⟩
  · rw [tokens', tokens]
  · rw [formula', formula, count]
    rfl

theorem SpellsLevel.exists_chain {l : Level} (spelled : SpellsLevel l ts) (atom : Derivation .primary) :
    ∃ d : Derivation (.chain .or), d.tokens = ts ++ atom.tokens ∧
      d.formula = l.disjunction atom.formula := by
  obtain ⟨wide, narrow, narrower, split, wider, rfl, formula⟩ := spelled.complete atom
  obtain ⟨d, tokens, formula'⟩ := wider.join narrower
  refine ⟨d, tokens.trans split.symm, ?_⟩
  rw [formula', formula]
  rfl

theorem Spells.operand {operand : Formula} (spelled : r.Spells ts)
    (read : r.focus.operand? = some operand) :
    ∃ outside inside, ∃ atom : Derivation .primary, ts = outside ++ (inside ++ atom.tokens) ∧
      SpellsOuter r.outer outside ∧ SpellsLevel r.level inside ∧ atom.formula = operand := by
  obtain ⟨outside, inside, last, rfl, outer, level, focus⟩ := spelled
  rw [SpellsFocus, read] at focus
  obtain ⟨atom, rfl, formula⟩ := focus
  exact ⟨outside, inside, atom, List.append_assoc .., outer, level, formula⟩

theorem stepDue_spells (spelled : r.Spells ts) (due : r.focus.operand? = none)
    (stepped : r.stepDue token = .ok r') : r'.Spells (ts ++ [token]) := by
  obtain ⟨outside, inside, last, rfl, outer, level, focus⟩ := spelled
  rw [SpellsFocus, due] at focus
  subst focus
  rw [List.append_nil]
  unfold stepDue at stepped
  split at stepped
  · rename_i kind
    cases stepped
    obtain ⟨wide, narrow, nots, rfl, wider, narrower, count, isNot⟩ := level
    refine ⟨outside, wide ++ narrow ++ (nots ++ [token]), [], by simp, outer, ?_, ?_⟩
    · refine ⟨wide, narrow, nots ++ [token], rfl, wider, narrower, by simp [count], ?_⟩
      intro t member
      rcases List.mem_append.mp member with before | last
      · exact isNot t before
      · rw [List.mem_singleton.mp last, kind]
    · rw [SpellsFocus, due]
  · rename_i kind
    cases stepped
    exact ⟨outside, inside, [token], rfl, outer, level, .name token kind, rfl, rfl⟩
  · rename_i kind
    cases stepped
    exact ⟨outside, inside, [token], rfl, outer, level, .literal token true kind, rfl, rfl⟩
  · rename_i kind
    cases stepped
    exact ⟨outside, inside, [token], rfl, outer, level, .literal token false kind, rfl, rfl⟩
  · rename_i kind
    cases stepped
    refine ⟨outside ++ inside ++ [token], [], [], by simp, ?_, spellsLevel_empty, rfl⟩
    exact ⟨outside, inside, token, rfl, outer, level, kind⟩
  · cases stepped

theorem stepAfter_spells {operand : Formula} (spelled : r.Spells ts)
    (read : r.focus.operand? = some operand) (stepped : r.stepAfter operand token = .ok r') :
    r'.Spells (ts ++ [token]) := by
  obtain ⟨outside, inside, atom, rfl, outer, level, rfl⟩ := spelled.operand read
  unfold stepAfter at stepped
  dsimp only at stepped
  split at stepped
  · rename_i kind
    cases stepped
    obtain ⟨wide, narrow, d, split, wider, rfl, formula⟩ := level.complete atom
    rw [split]
    refine ⟨outside, wide ++ (d.tokens ++ [token]) ++ [], [], by simp, outer, ?_, rfl⟩
    refine ⟨wide, _, [], rfl, wider, ?_, rfl, by simp⟩
    rw [← formula]
    exact .chain d token kind
  · rename_i kind
    cases stepped
    obtain ⟨d, tokens, formula⟩ := level.exists_chain atom
    rw [← tokens]
    refine ⟨outside, d.tokens ++ [token] ++ [] ++ [], [], by simp, outer, ?_, rfl⟩
    refine ⟨_, [], [], rfl, ?_, .nothing, rfl, by simp⟩
    rw [← formula]
    exact .chain d token kind
  · rename_i kind
    obtain ⟨d, tokens, formula⟩ := level.exists_chain atom
    rw [← tokens]
    -- The parenthesis that is closed is the last token outside.
    cases levels : r.outer with
    | nil => simp [levels, refuse] at stepped
    | cons above beyond =>
      rw [levels] at stepped outer
      cases stepped
      obtain ⟨before, within, opening, rfl, outer, level, isOpening⟩ := outer
      refine ⟨before, within, opening :: (d.tokens ++ [token]), by simp, outer, level, ?_⟩
      exact ⟨.group opening isOpening d token kind, rfl, by rw [Derivation.formula, formula]⟩
  · cases stepped

theorem step_spells (spelled : r.Spells ts) (stepped : r.step token = .ok r') :
    r'.Spells (ts ++ [token]) := by
  unfold step at stepped
  split at stepped
  · rename_i due
    exact stepDue_spells spelled due stepped
  · rename_i operand read
    exact stepAfter_spells spelled read stepped

theorem foldlM_step_spells (spelled : r.Spells ts) (read : us.foldlM step r = .ok r') :
    r'.Spells (ts ++ us) := by
  induction us generalizing r ts with
  | nil =>
    cases read
    rwa [List.append_nil]
  | cons token later ih =>
    rw [List.foldlM_cons] at read
    cases stepped : r.step token with
    | error e => simp [stepped, bind, Except.bind] at read
    | ok r₁ =>
      rw [stepped] at read
      have rest := ih (step_spells spelled stepped) read
      rwa [List.append_assoc, List.singleton_append] at rest

theorem spells_start : ({} : Reading).Spells [] :=
  ⟨[], [], [], rfl, rfl, spellsLevel_empty, rfl⟩

theorem exists_derivation_of_finish (spelled : r.Spells ts) (finished : r.finish = .ok f) :
    ∃ d : Derivation (.chain .or), d.tokens = ts ∧ d.formula = f := by
  unfold finish at finished
  split at finished
  · cases finished
  · rename_i operand read
    dsimp only at finished
    obtain ⟨outside, inside, atom, rfl, outer, level, rfl⟩ := spelled.operand read
    split at finished
    · rename_i top
      rw [List.isEmpty_iff.mp top] at outer
      obtain rfl : outside = [] := outer
      obtain ⟨d, tokens, formula⟩ := level.exists_chain atom
      exact ⟨d, tokens, formula.trans (Except.ok.inj finished)⟩
    · cases finished

/-! ### Reading tokens -/

theorem run_derivation (d : Derivation (.chain .or)) (ending : Token) :
    ({} : Reading).run (.ok ending) d.tokens = .ok d.formula := by
  obtain ⟨r, went, outer, operand, read, formula⟩ := goes_over (r := {}) d ⟨rfl, rfl⟩
  rw [run_eq, went]
  change r.finish = _
  rw [finish, read]
  dsimp only at formula ⊢
  rw [outer, formula]
  rfl

theorem run_eq_ok_iff {ending : Token} {tokens : List Token} {f : Formula} :
    ({} : Reading).run (.ok ending) tokens = .ok f ↔
      ∃ d : Derivation (.chain .or), d.tokens = tokens ∧ d.formula = f := by
  constructor
  · intro read
    rw [run_eq] at read
    cases went : tokens.foldlM step ({} : Reading) with
    | error e => simp [went, bind, Except.bind] at read
    | ok r =>
      rw [went] at read
      exact exists_derivation_of_finish (foldlM_step_spells spells_start went) read
  · rintro ⟨d, rfl, rfl⟩
    exact run_derivation d ending

theorem run_error_ne_ok (e : SyntaxError) (r : Reading) (tokens : List Token) (f : Formula) :
    r.run (.error e) tokens ≠ .ok f := by
  rw [run_eq]
  cases tokens.foldlM step r with
  | error failure => simp [bind, Except.bind]
  | ok r' => simp [bind, Except.bind, run]

end Reading

/-- The grammar is unambiguous: tokens have at most one derivation. -/
theorem Derivation.eq_of_tokens_eq (d e : Derivation (.chain .or)) (same : d.tokens = e.tokens) : d = e := by
  have read := Reading.run_derivation d ⟨.eof, "", 0⟩
  rw [same, Reading.run_derivation e] at read
  exact Derivation.eq_of_formula_eq d e (Except.ok.inj read).symm same

/-- A text stands for a formula if and only if all of it is tokens, and these have a derivation with
that tree. -/
theorem Formula.read_eq_ok_iff {input : String} {f : Formula} :
    Formula.read input = .ok f ↔ ∃ eof, ∃ d : Derivation (.chain .or),
      tokenize input = .ok (d.tokens ++ [eof]) ∧ d.formula = f := by
  unfold Formula.read tokenize
  dsimp only
  generalize (Lexer.ofString input).scan = scan
  cases ended : scan.ending with
  | error e => simp [Reading.run_error_ne_ok, Except.map]
  | ok eof =>
    rw [Reading.run_eq_ok_iff]
    simp only [Except.map, Except.ok.injEq]
    constructor
    · rintro ⟨d, tokens, formula⟩
      exact ⟨eof, d, by rw [tokens], formula⟩
    · rintro ⟨last, d, tokens, formula⟩
      exact ⟨d, (List.append_inj_left' tokens rfl).symm, formula⟩

end Propositional
