import Propositional.Arena.Enter
import Propositional.Proofs.Checked
import Propositional.Proofs.Formula.Reader
import Propositional.Proofs.Token.Lexer

/-!
# Entering texts by recursive descent

A text can also be entered by functions for the symbols of the grammar, which call each other, ask the lexer for
one token after the other and add each node to the arena as soon as its operands are there. They keep a list of the
nodes they have added, and take them out again in this order if the text turns out to be no formula. That is what
entering a text does: the subformulas that a reader has completed, grafted from left to right, are these nodes.
-/

namespace Propositional.Arena

/-- A descent under way: the token it looks at, the lexer behind it, the arena, and the nodes that have been added
so far. -/
structure Descent where
  token : Token
  lexer : Lexer
  arena : Arena
  added : List Handle := []

/-- An error of the text leaves the state as it is then, and a fault of the arena ends everything. -/
abbrev Descends (α : Type) := ExceptT SyntaxError (StateT Descent Checked) α

namespace Descent

def refusal (token : Token) (expected : List Token.Kind) : SyntaxError :=
  if token.kind = .eof then .unexpectedEnd expected
  else .unexpectedToken token.kind token.text expected token.offset

def kind : Descends Token.Kind := fun d => return (.ok d.token.kind, d)

/-- Answers the token it looks at and goes on to the next one. -/
def advance : Descends Token := fun d =>
  match d.lexer.next with
  | (.ok token, lexer) => return (.ok d.token, { d with token, lexer })
  | (.error e, lexer) => return (.error e, { d with lexer })

def refuse (expected : List Token.Kind) : Descends Handle := fun d => return (.error (refusal d.token expected), d)

def track (add : Arena → Checked (Handle × Arena)) : Descends Handle := fun d => do
  let (h, arena) ← add d.arena
  return (.ok h, { d with arena, added := d.added ++ [h] })

def chainFrom (op : Connective) (operand : Descends Handle) : Nat → Handle → Descends Handle
  | 0, _ => fun _ => throw .endless
  | fuel + 1, left => do
    if (← kind) = .ofConnective op then
      let _ ← advance
      let right ← operand
      let left ← track fun A => A.addBinary op left right
      chainFrom op operand fuel left
    else return left

def chain (op : Connective) (operand : Descends Handle) (fuel : Nat) : Descends Handle := do
  chainFrom op operand fuel (← operand)

def disjunction (operand : Descends Handle) (fuel : Nat) : Descends Handle :=
  chain .or (chain .and operand fuel) fuel

def closeGroup (inner : Handle) : Descends Handle := do
  if (← kind) = .closeParen then
    let _ ← advance
    track fun A => A.addParens inner
  else refuse [.and, .or, .closeParen]

def unary : Nat → Descends Handle
  | 0 => fun _ => throw .endless
  | fuel + 1 => do
    match ← kind with
    | .not =>
      let _ ← advance
      let operand ← unary fuel
      track fun A => A.addNot operand
    | .ident =>
      let token ← advance
      track fun A => A.addId token.text
    | .true =>
      let _ ← advance
      track fun A => A.addLiteral true
    | .false =>
      let _ ← advance
      track fun A => A.addLiteral false
    | .openParen =>
      let _ ← advance
      let inner ← disjunction (unary fuel) fuel
      closeGroup inner
    | _ => refuse Reading.operandStarts

def expression (fuel : Nat) : Descends Handle := do
  let h ← disjunction (unary fuel) fuel
  if (← kind) = .eof then return h else refuse [.and, .or, .eof]

end Descent

/-- Enters a text by recursive descent. A descent calls itself at most once for each token. -/
def descend (A : Arena) (input : String) : Checked (Except SyntaxError Handle × Arena) := do
  match (Lexer.ofString input).next with
  | (.error e, _) => return (.error e, A)
  | (.ok token, lexer) =>
    match ← Descent.expression (input.length + 1) { token, lexer, arena := A } with
    | (.ok h, d) =>
      let (root, A) ← d.arena.addRoot h
      return (.ok root, A)
    | (.error e, d) => return (.error e, ← d.arena.takeAll d.added)

namespace Descent

open Reading

variable {α β : Type} {s : Symbol} {op : Connective} {r r' : Reading} {f : Formula} {token t : Token} {lexer l : Lexer}
  {e : SyntaxError} {m : Descends Handle} {n fuel : Nat}

theorem bind_apply (m : Descends α) (next : α → Descends β) (d : Descent) :
    (m >>= next) d = m d >>= fun r =>
      match r.1 with
      | .ok a => next a r.2
      | .error e => .ok (.error e, r.2) := by
  simp only [bind, ExceptT.bind, StateT.bind, ExceptT.mk]
  cases m d with
  | error fault => rfl
  | ok r =>
    obtain ⟨answer, d'⟩ := r
    cases answer <;> rfl

/-! ### What is ahead -/

/-- The tokens from the one that is looked at. -/
def ahead (token : Token) (lexer : Lexer) : Scan :=
  if token.kind = .eof then ⟨[], .ok token⟩ else ⟨token :: lexer.scan.tokens, lexer.scan.ending⟩

def runAhead (r : Reading) (token : Token) (lexer : Lexer) : Except Unreadable Formula :=
  r.run (ahead token lexer).ending (ahead token lexer).tokens

def size (token : Token) (lexer : Lexer) : Nat := (ahead token lexer).tokens.length

theorem scan_of_ahead (read : lexer.next = (.ok t, l)) : lexer.scan = ahead t l := by
  rw [Lexer.scan_eq, read]
  rfl

theorem runAhead_step (more : token.kind ≠ .eof) (stepped : r.step token = .ok r') :
    runAhead r token lexer = r'.run lexer.scan.ending lexer.scan.tokens := by
  rw [runAhead, ahead, if_neg more, run, stepped]

theorem runAhead_go (more : token.kind ≠ .eof) (stepped : r.step token = .ok r') (read : lexer.next = (.ok t, l)) :
    runAhead r token lexer = runAhead r' t l := by
  rw [runAhead_step more stepped, scan_of_ahead read, runAhead]

theorem runAhead_stop (more : token.kind ≠ .eof) (stepped : r.step token = .ok r')
    (read : lexer.next = (.error e, l)) : runAhead r token lexer = .error ⟨e, r'.completed⟩ := by
  rw [runAhead_step more stepped, Lexer.scan_of_error read, run]

theorem size_go (more : token.kind ≠ .eof) (read : lexer.next = (.ok t, l)) : size token lexer = size t l + 1 := by
  rw [size, ahead, if_neg more, scan_of_ahead read]
  rfl

/-! ### Outcomes -/

/-- What comes of a descent: a formula and the place behind it, or an error and the subformulas that were complete. -/
inductive Outcome where
  | parsed (f : Formula) (token : Token) (lexer : Lexer)
  | failed (e : SyntaxError) (completed : List Formula) (token : Token) (lexer : Lexer)

/-- The outcome in an arena, where the formulas are grafted as a whole. -/
def Outcome.enact (arena : Arena) (added : List Handle) : Outcome → Checked (Except SyntaxError Handle × Descent)
  | parsed f token lexer =>
    arena.graft f.toCandidate >>= fun a => .ok (.ok a.1, ⟨token, lexer, a.2.2, added ++ a.2.1⟩)
  | failed e completed token lexer =>
    arena.graftAll completed >>= fun a => .ok (.error e, ⟨token, lexer, a.2, added ++ a.1⟩)

def Enacts (m : Descends Handle) (token : Token) (lexer : Lexer) (o : Outcome) : Prop :=
  ∀ arena added, m ⟨token, lexer, arena, added⟩ = o.enact arena added

/-- What derives from the symbol cannot go on with this kind of token. -/
def Ends : Symbol → Token.Kind → Prop
  | .chain .or, kind => kind ≠ .and ∧ kind ≠ .or
  | .chain .and, kind => kind ≠ .and
  | .unary, _ | .primary, _ => True

/-- The reader that gives the answer has read the same as what derives from the symbol. -/
def Outcome.Agrees (s : Symbol) (r : Reading) (answer : Except Unreadable Formula) (bound : Nat) : Outcome → Prop
  | parsed f token lexer =>
    (∃ r', Went s r f r' ∧ answer = runAhead r' token lexer) ∧ size token lexer ≤ bound ∧ Ends s token.kind
  | failed e completed _ _ => answer = .error ⟨e, r.completed ++ completed⟩

/-- Wherever the symbol can start and less than `n` tokens are ahead, the descent agrees with the reader. -/
def Follows (n : Nat) (s : Symbol) (m : Descends Handle) : Prop :=
  ∀ r token lexer, Ready s r → size token lexer < n →
    ∃ o : Outcome, Enacts m token lexer o ∧ o.Agrees s r (runAhead r token lexer) (size token lexer)

theorem Outcome.Agrees.mono {o : Outcome} {answer : Except Unreadable Formula} {bound wider : Nat}
    (agrees : o.Agrees s r answer bound) (le : bound ≤ wider) : o.Agrees s r answer wider := by
  cases o with
  | parsed f token lexer => exact ⟨agrees.1, Nat.le_trans agrees.2.1 le, agrees.2.2⟩
  | failed e completed token lexer => exact agrees

theorem Enacts.bind_parsed (enacts : Enacts m token lexer (.parsed f t l)) (next : Handle → Descends Handle)
    (arena : Arena) (added : List Handle) : (m >>= next) ⟨token, lexer, arena, added⟩ =
      arena.graft f.toCandidate >>= fun a => next a.1 ⟨t, l, a.2.2, added ++ a.2.1⟩ := by
  rw [bind_apply, enacts, Outcome.enact, bind_assoc]
  rfl

theorem Enacts.bind_failed {completed : List Formula} (enacts : Enacts m token lexer (.failed e completed t l))
    (next : Handle → Descends Handle) : Enacts (m >>= next) token lexer (.failed e completed t l) := by
  intro arena added
  rw [bind_apply, enacts, Outcome.enact, bind_assoc]
  rfl

theorem kind_apply (next : Token.Kind → Descends Handle) (arena : Arena) (added : List Handle) :
    (kind >>= next) ⟨token, lexer, arena, added⟩ = next token.kind ⟨token, lexer, arena, added⟩ := rfl

theorem advance_go {next : Token → Descends Handle} (read : lexer.next = (.ok t, l)) (arena : Arena)
    (added : List Handle) : (advance >>= next) ⟨token, lexer, arena, added⟩ = next token ⟨t, l, arena, added⟩ := by
  rw [bind_apply, advance, read]
  rfl

theorem advance_stop {next : Token → Descends Handle} (read : lexer.next = (.error e, l)) (arena : Arena)
    (added : List Handle) :
    (advance >>= next) ⟨token, lexer, arena, added⟩ = .ok (.error e, ⟨token, l, arena, added⟩) := by
  rw [bind_apply, advance, read]
  rfl

/-! ### What is complete -/

theorem completed_of_due (due : r.focus = .due) : r.completed = r.completedOuter ++ r.level.completed := by
  simp [completed, due, Focus.completed]

theorem completed_denied (due : r.focus = .due) : r.denied.completed = r.completed := by
  rw [completed_of_due due, completed_of_due (r := r.denied) due]
  rfl

theorem completedOuter_opened (due : r.focus = .due) : r.opened.completedOuter = r.completed := by
  rw [completed_of_due due, opened, completedOuter, List.reverse_cons, List.flatMap_append, List.flatMap_singleton]
  rfl

theorem completed_opened (due : r.focus = .due) : r.opened.completed = r.completed := by
  rw [completed_of_due rfl, completedOuter_opened due]
  exact List.append_nil _

theorem completed_leaf (due : r.focus = .due) :
    ({ r with focus := .leaf f } : Reading).completed = r.completed := by
  rw [completed_of_due due]
  exact List.append_nil _

theorem completed_group (due : r.focus = .due) :
    ({ r with focus := .group f } : Reading).completed = r.completed ++ [f] := by
  rw [completed_of_due due]
  rfl

theorem completed_pending (ready : Ready (.chain op) r) : (r.pending op f).completed = r.completed ++ [f] := by
  obtain ⟨due, fresh⟩ := ready
  rw [completed_of_due due]
  cases op with
  | and =>
    have conjuncts : r.level.conjuncts = none := fresh.1
    simp [completed_of_due, pending, completedOuter, Level.completed, conjuncts]
  | or =>
    have level : r.level = {} := fresh
    simp [completed_of_due, pending, completedOuter, Level.completed, level]

/-! ### Refusals -/

theorem refused_due (due : r.focus = .due)
    (starts : token.kind ∉ Reading.operandStarts) : runAhead r token lexer =
      .error ⟨refusal token operandStarts, r.completed⟩ := by
  rw [runAhead, ahead, refusal]
  split
  · rw [run, finish, due]
    rfl
  · have refused : r.step token = .error ⟨.unexpectedToken token.kind token.text operandStarts token.offset,
        r.completed⟩ := by
      rw [step_of_due due, stepDue]
      cases kind : token.kind <;> simp_all [operandStarts, Reading.refuse]
    rw [run, refused]

/-- Behind a chain that cannot go on, only its end is accepted: that of the text or a closing parenthesis. -/
theorem refused_behind (went : Went (.chain .or) r f r') (ends : Ends (.chain .or) token.kind)
    (unclosed : token.kind = .closeParen → r.outer = []) (unfinished : token.kind = .eof → r.outer ≠ []) :
    runAhead r' token lexer = .error ⟨refusal token r.operandFollows, r.completedOuter ++ [f]⟩ := by
  obtain ⟨outer, operand, read, disjunction⟩ := went
  have disjunction : r'.level.disjunction operand = f := disjunction
  have follows : r'.operandFollows = r.operandFollows := by rw [operandFollows, operandFollows, outer]
  have before : r'.completedOuter = r.completedOuter := by rw [completedOuter, completedOuter, outer]
  rw [runAhead, ahead, refusal]
  split
  · rename_i last
    rw [run, finish, read]
    dsimp only
    rw [disjunction, follows, before, outer, List.isEmpty_eq_false_iff.mpr (unfinished last)]
    rfl
  · have refused : r'.step token = .error ⟨.unexpectedToken token.kind token.text r.operandFollows token.offset,
        r.completedOuter ++ [f]⟩ := by
      rw [step_of_operand read, stepAfter, disjunction, follows, before, outer]
      cases kind : token.kind <;> simp_all [Reading.refuse, Ends]
    rw [run, refused]

/-! ### Operands -/

/-- Going on from a token either fails at once, with nothing more completed, or leads to where the reader is. -/
theorem exists_outcome_of_advance {next : Token → Descends Handle} (more : token.kind ≠ .eof)
    (stepped : r.step token = .ok r') (kept : r'.completed = r.completed)
    (behind : ∀ t l, lexer.next = (.ok t, l) → size t l < size token lexer →
      ∃ o : Outcome, Enacts (next token) t l o ∧ o.Agrees s r (runAhead r' t l) (size t l)) :
    ∃ o : Outcome, Enacts (advance >>= next) token lexer o ∧
      o.Agrees s r (runAhead r token lexer) (size token lexer) := by
  rcases read : lexer.next with ⟨e | t, l⟩
  · refine ⟨.failed e [] token l, fun arena added => ?_, ?_⟩
    · rw [advance_stop read, Outcome.enact, graftAll, pure_bind, List.append_nil]
    · rw [Outcome.Agrees, runAhead_stop more stepped read, kept, List.append_nil]
  · have smaller : size t l < size token lexer := by
      rw [size_go more read]
      exact Nat.lt_succ_self _
    obtain ⟨o, enacts, agrees⟩ := behind t l read smaller
    rw [runAhead_go more stepped read]
    exact ⟨o, fun arena added => (advance_go read arena added).trans (enacts arena added),
      agrees.mono (Nat.le_of_lt smaller)⟩

theorem follows_token (make : Token → Arena → Checked (Handle × Arena)) (more : token.kind ≠ .eof)
    (stepped : r.step token = .ok r') (went : Went .unary r f r') (kept : r'.completed = r.completed)
    (grafts : ∀ A : Arena, A.graft f.toCandidate = make token A >>= fun a => .ok (a.1, [a.1], a.2)) :
    ∃ o : Outcome, Enacts (advance >>= fun token => track (make token)) token lexer o ∧
      o.Agrees .unary r (runAhead r token lexer) (size token lexer) := by
  refine exists_outcome_of_advance more stepped kept fun t l _ _ => ?_
  refine ⟨.parsed f t l, fun arena added => ?_, ⟨r', went, rfl⟩, Nat.le_refl _, trivial⟩
  rw [track, Outcome.enact, grafts, bind_assoc]
  rfl

theorem Enacts.bind_track {make : Handle → Arena → Checked (Handle × Arena)} {g : Formula}
    (enacts : Enacts m token lexer (.parsed f t l)) (grafts : ∀ A : Arena, A.graft g.toCandidate =
      A.graft f.toCandidate >>= fun a => make a.1 a.2.2 >>= fun b => .ok (b.1, a.2.1 ++ [b.1], b.2)) :
    Enacts (m >>= fun h => track (make h)) token lexer (.parsed g t l) := by
  intro arena added
  rw [enacts.bind_parsed, Outcome.enact, grafts, bind_assoc]
  congr 1
  funext a
  rw [track, bind_assoc]
  simp only [List.append_assoc]
  rfl

theorem follows_not (operand : Follows n .unary m) (due : r.focus = .due) (isNot : token.kind = .not)
    (fits : size token lexer < n + 1) :
    ∃ o : Outcome, Enacts (advance >>= fun _ => m >>= fun h => track fun A => A.addNot h) token lexer o ∧
      o.Agrees .unary r (runAhead r token lexer) (size token lexer) := by
  have more : token.kind ≠ .eof := by simp [isNot]
  refine exists_outcome_of_advance more (step_not due isNot) (completed_denied due) fun t l _ smaller => ?_
  obtain ⟨o, enacts, agrees⟩ := operand r.denied t l ⟨due, trivial⟩ (by omega)
  cases o with
  | parsed f t' l' =>
    obtain ⟨⟨r', went, answer⟩, shorter, -⟩ := agrees
    exact ⟨.parsed (.not f) t' l', enacts.bind_track fun _ => rfl, ⟨r', went.not, answer⟩, shorter, trivial⟩
  | failed e completed t' l' =>
    refine ⟨.failed e completed t' l', enacts.bind_failed _, ?_⟩
    rwa [Outcome.Agrees, completed_denied due] at agrees

theorem follows_closeGroup (enacts : Enacts m token lexer (.parsed f t l)) (due : r.focus = .due)
    (went : Went (.chain .or) r.opened f r') (ends : Ends (.chain .or) t.kind) :
    ∃ o : Outcome, Enacts (m >>= closeGroup) token lexer o ∧ o.Agrees .unary r (runAhead r' t l) (size t l) := by
  by_cases closing : t.kind = .closeParen
  case neg =>
    refine ⟨.failed (refusal t [.and, .or, .closeParen]) [f] t l, fun arena added => ?_, ?_⟩
    · rw [enacts.bind_parsed]
      simp only [closeGroup, kind_apply, if_neg closing, refuse, Outcome.enact, graftAll, bind_assoc, pure_bind,
        List.append_nil]
      rfl
    · rw [Outcome.Agrees, refused_behind went ends (fun same => absurd same closing) (fun _ => by simp [opened]),
        completedOuter_opened due]
      rfl
  case pos =>
    have more : t.kind ≠ .eof := by simp [closing]
    have stepped := went.step_close closing
    rcases read : l.next with ⟨e | t', l'⟩
    · refine ⟨.failed e [f] t l', fun arena added => ?_, ?_⟩
      · rw [enacts.bind_parsed]
        simp only [closeGroup, kind_apply, if_pos closing, advance_stop read, Outcome.enact, graftAll, bind_assoc,
          pure_bind, List.append_nil]
      · rw [Outcome.Agrees, runAhead_stop more stepped read, completed_group due]
    · have smaller := size_go more read
      refine ⟨.parsed (.parens f) t' l', fun arena added => ?_,
        ⟨_, (went_group r f).primary, runAhead_go more stepped read⟩, by omega, trivial⟩
      have grafts : arena.graft (Formula.parens f).toCandidate = arena.graft f.toCandidate >>= fun a =>
          a.2.2.addParens a.1 >>= fun b => .ok (b.1, a.2.1 ++ [b.1], b.2) := rfl
      rw [enacts.bind_parsed, Outcome.enact, grafts]
      simp only [closeGroup, kind_apply, if_pos closing, advance_go read, track, bind_assoc, Checked.ok_bind,
        List.append_assoc]
      rfl

/-! ### Chains -/

/-- The loop of a chain, when its first operands have been read and are in the arena. -/
def Loops (op : Connective) (m : Descends Handle) (fuel : Nat) (f : Formula) (token : Token) (lexer : Lexer)
    (o : Outcome) : Prop :=
  ∀ (arena : Arena) (added : List Handle), (arena.graft f.toCandidate >>= fun a =>
    chainFrom op m fuel a.1 ⟨token, lexer, a.2.2, added ++ a.2.1⟩) = o.enact arena added

theorem chainFrom_keyword (isKeyword : token.kind = .ofConnective op) (left : Handle) (arena : Arena)
    (added : List Handle) : chainFrom op m (fuel + 1) left ⟨token, lexer, arena, added⟩ =
      (advance >>= fun _ => m >>= fun right => track (fun A => A.addBinary op left right) >>=
        chainFrom op m fuel) ⟨token, lexer, arena, added⟩ := by
  rw [chainFrom, kind_apply, if_pos isKeyword]

theorem loops_end (ended : token.kind ≠ .ofConnective op) :
    Loops op m (fuel + 1) f token lexer (.parsed f token lexer) := by
  intro arena added
  simp only [chainFrom, kind_apply, if_neg ended]
  rfl

theorem loops_stop (isKeyword : token.kind = .ofConnective op) (read : lexer.next = (.error e, l)) :
    Loops op m (fuel + 1) f token lexer (.failed e [f] token l) := by
  intro arena added
  simp only [chainFrom_keyword isKeyword, advance_stop read, Outcome.enact, graftAll, bind_assoc, pure_bind,
    List.append_nil]

theorem loops_failed {completed : List Formula} {t' : Token} {l' : Lexer}
    (isKeyword : token.kind = .ofConnective op) (read : lexer.next = (.ok t, l))
    (enacts : Enacts m t l (.failed e completed t' l')) :
    Loops op m (fuel + 1) f token lexer (.failed e (f :: completed) t' l') := by
  intro arena added
  simp only [chainFrom_keyword isKeyword, advance_go read, enacts.bind_failed _ _ _, Outcome.enact, graftAll,
    bind_assoc, pure_bind, List.append_assoc]

theorem loops_more {g : Formula} {t' : Token} {l' : Lexer} {o : Outcome}
    (isKeyword : token.kind = .ofConnective op) (read : lexer.next = (.ok t, l))
    (enacts : Enacts m t l (.parsed g t' l')) (loops : Loops op m fuel (.binary op f g) t' l' o) :
    Loops op m (fuel + 1) f token lexer o := by
  intro arena added
  have grafts : arena.graft (Formula.binary op f g).toCandidate =
      arena.graft f.toCandidate >>= fun a => a.2.2.graft g.toCandidate >>= fun b =>
        b.2.2.addBinary op a.1 b.1 >>= fun c => .ok (c.1, a.2.1 ++ b.2.1 ++ [c.1], c.2) := rfl
  have tracked : ∀ (left right : Handle) (arena : Arena) (added : List Handle),
      (track (fun A => A.addBinary op left right) >>= chainFrom op m fuel) ⟨t', l', arena, added⟩ =
        arena.addBinary op left right >>= fun c => chainFrom op m fuel c.1 ⟨t', l', c.2, added ++ [c.1]⟩ := by
    intro left right arena added
    rw [bind_apply, track, bind_assoc]
    rfl
  rw [← loops, grafts]
  simp only [chainFrom_keyword isKeyword, advance_go read, enacts.bind_parsed, tracked, bind_assoc, Checked.ok_bind,
    List.append_assoc]

theorem ends_chain (ends : Ends (.operand op) token.kind) (ended : token.kind ≠ .ofConnective op) :
    Ends (.chain op) token.kind := by
  cases op with
  | and => exact ended
  | or => exact ⟨ends, ended⟩

theorem follows_chainFrom (operand : Follows n (.operand op) m) (ready : Ready (.chain op) r)
    (fits : size token lexer < n) (enough : size token lexer < fuel) (went : Went (.chain op) r f r')
    (ends : Ends (.operand op) token.kind) :
    ∃ o : Outcome, Loops op m fuel f token lexer o ∧
      o.Agrees (.chain op) r (runAhead r' token lexer) (size token lexer) := by
  induction fuel generalizing f r' token lexer with
  | zero => omega
  | succ fuel ih =>
    by_cases isKeyword : token.kind = .ofConnective op
    case neg =>
      exact ⟨.parsed f token lexer, loops_end isKeyword, ⟨r', went, rfl⟩, Nat.le_refl _, ends_chain ends isKeyword⟩
    case pos =>
      have more : token.kind ≠ .eof := by cases op <;> simp [isKeyword, Token.Kind.ofConnective]
      have stepped := went.step_keyword isKeyword
      rcases read : lexer.next with ⟨e | t, l⟩
      · refine ⟨.failed e [f] token l, loops_stop isKeyword read, ?_⟩
        rw [Outcome.Agrees, runAhead_stop more stepped read, completed_pending ready]
      · have smaller := size_go more read
        obtain ⟨o, enacts, agrees⟩ := operand (r.pending op f) t l (ready_pending r op f) (by omega)
        rw [← runAhead_go more stepped read] at agrees
        cases o with
        | failed e completed t' l' =>
          refine ⟨.failed e (f :: completed) t' l', loops_failed isKeyword read enacts, ?_⟩
          rw [Outcome.Agrees, agrees, completed_pending ready, List.append_assoc, List.singleton_append]
        | parsed g t' l' =>
          obtain ⟨⟨r₂, went₂, answer⟩, shorter, ends₂⟩ := agrees
          have within : size t' l' < n := by omega
          have enough : size t' l' < fuel := by omega
          obtain ⟨o, loops, agrees⟩ := ih within enough went₂.more ends₂
          rw [← answer] at agrees
          exact ⟨o, loops_more isKeyword read enacts loops, agrees.mono (by omega)⟩

theorem follows_chain (op : Connective) (operand : Follows n (.operand op) m) : Follows n (.chain op) (chain op m n) := by
  intro r token lexer ready fits
  obtain ⟨o, enacts, agrees⟩ := operand r token lexer ready.operand fits
  cases o with
  | failed e completed t l => exact ⟨_, enacts.bind_failed _, agrees⟩
  | parsed f t l =>
    obtain ⟨⟨r', went, answer⟩, shorter, ends⟩ := agrees
    have within : size t l < n := Nat.lt_of_le_of_lt shorter fits
    obtain ⟨o, loops, agrees⟩ := follows_chainFrom operand ready within within (went.first ready) ends
    rw [← answer] at agrees
    exact ⟨o, fun arena added => (enacts.bind_parsed _ arena added).trans (loops arena added), agrees.mono shorter⟩

theorem follows_disjunction (operand : Follows n .unary m) : Follows n (.chain .or) (disjunction m n) :=
  follows_chain .or (follows_chain .and operand)

/-! ### The symbols of the grammar -/

theorem follows_group (operand : Follows n .unary m) (due : r.focus = .due) (isOpening : token.kind = .openParen)
    (fits : size token lexer < n + 1) :
    ∃ o : Outcome, Enacts (advance >>= fun _ => disjunction m n >>= closeGroup) token lexer o ∧
      o.Agrees .unary r (runAhead r token lexer) (size token lexer) := by
  have more : token.kind ≠ .eof := by simp [isOpening]
  refine exists_outcome_of_advance more (step_open due isOpening) (completed_opened due) fun t l _ smaller => ?_
  obtain ⟨o, enacts, agrees⟩ := follows_disjunction operand r.opened t l ⟨rfl, rfl⟩ (by omega)
  cases o with
  | failed e completed t' l' =>
    refine ⟨.failed e completed t' l', enacts.bind_failed _, ?_⟩
    rwa [Outcome.Agrees, completed_opened due] at agrees
  | parsed f t' l' =>
    obtain ⟨⟨r', went, answer⟩, shorter, ends⟩ := agrees
    rw [answer]
    obtain ⟨o, enacts, agrees⟩ := follows_closeGroup enacts due went ends
    exact ⟨o, enacts, agrees.mono shorter⟩

theorem follows_unary (n : Nat) : Follows n .unary (unary n) := by
  induction n with
  | zero => exact fun r token lexer _ fits => absurd fits (Nat.not_lt_zero _)
  | succ n ih =>
    rintro r token lexer ⟨due, -⟩ fits
    -- What is done depends on the kind of the token, which all states here share.
    have start : ∀ arena added, unary (n + 1) ⟨token, lexer, arena, added⟩ = (match token.kind with
        | .not => advance >>= fun _ => unary n >>= fun h => track fun A => A.addNot h
        | .ident => advance >>= fun token => track fun A => A.addId token.text
        | .true => advance >>= fun _ => track fun A => A.addLiteral true
        | .false => advance >>= fun _ => track fun A => A.addLiteral false
        | .openParen => advance >>= fun _ => disjunction (unary n) n >>= closeGroup
        | _ => refuse operandStarts : Descends Handle) ⟨token, lexer, arena, added⟩ := fun _ _ => rfl
    unfold Enacts
    simp only [start]
    cases isKind : token.kind with
    | not => exact follows_not ih due isKind fits
    | ident =>
      exact follows_token (fun token A => A.addId token.text) (by simp [isKind]) (step_name due isKind)
        (went_leaf r _).primary (completed_leaf due) fun _ => rfl
    | true =>
      have isLiteral : token.kind = .ofLiteral true := isKind
      exact follows_token (fun _ A => A.addLiteral true) (by simp [isKind]) (step_literal due isLiteral)
        (went_leaf r _).primary (completed_leaf due) fun _ => rfl
    | false =>
      have isLiteral : token.kind = .ofLiteral false := isKind
      exact follows_token (fun _ A => A.addLiteral false) (by simp [isKind]) (step_literal due isLiteral)
        (went_leaf r _).primary (completed_leaf due) fun _ => rfl
    | openParen => exact follows_group ih due isKind fits
    | and | or | closeParen | eof =>
      refine ⟨.failed (refusal token operandStarts) [] token lexer, fun arena added => ?_, ?_⟩
      · rw [Outcome.enact, graftAll, pure_bind, List.append_nil]
        rfl
      · rw [Outcome.Agrees, refused_due due (by simp [isKind, operandStarts]), List.append_nil]

/-- A whole text leaves nothing behind its chain. -/
theorem expression_cases (fits : size token lexer < n) :
    (∃ f t l, Enacts (expression n) token lexer (.parsed f t l) ∧ runAhead {} token lexer = .ok f) ∨
      ∃ e completed t l, Enacts (expression n) token lexer (.failed e completed t l) ∧
        runAhead {} token lexer = .error ⟨e, completed⟩ := by
  obtain ⟨o, enacts, agrees⟩ := follows_disjunction (follows_unary n) {} token lexer ⟨rfl, rfl⟩ fits
  cases o with
  | failed e completed t l => exact Or.inr ⟨e, completed, t, l, enacts.bind_failed _, agrees⟩
  | parsed f t l =>
    obtain ⟨⟨r', went, answer⟩, -, ends⟩ := agrees
    by_cases last : t.kind = .eof
    case pos =>
      refine Or.inl ⟨f, t, l, fun arena added => ?_, ?_⟩
      · rw [expression, enacts.bind_parsed]
        simp only [kind_apply, if_pos last]
        rfl
      · obtain ⟨outer, operand, read, disjunction⟩ := went
        have disjunction : r'.level.disjunction operand = f := disjunction
        rw [answer, runAhead, ahead, if_pos last, run, finish, read, outer]
        exact congrArg Except.ok disjunction
    case neg =>
      refine Or.inr ⟨refusal t [.and, .or, .eof], [f], t, l, fun arena added => ?_, ?_⟩
      · rw [expression, enacts.bind_parsed]
        simp only [kind_apply, if_neg last, refuse, Outcome.enact, graftAll, bind_assoc, pure_bind, List.append_nil]
        rfl
      · rw [answer, refused_behind went ends (fun _ => rfl) (fun same => absurd same last)]
        rfl

theorem length_tokens_scan_le (l : Lexer) : l.scan.tokens.length ≤ l.rest.length := by
  fun_induction Lexer.scan l with
  | case1 => exact Nat.zero_le _
  | case2 => exact Nat.zero_le _
  | case3 l token l' read more later ih =>
    have shorter := Lexer.length_next_lt read more
    exact Nat.succ_le_of_lt (Nat.lt_of_le_of_lt ih shorter)

end Descent

/-- Entering a text does what a recursive descent does, in every arena and for every text: each node is added when
its operands are complete, and the same nodes are taken out again in the same order. -/
theorem enter_eq_descend (A : Arena) (input : String) : A.enter input = A.descend input := by
  rcases read : (Lexer.ofString input).next with ⟨e | token, lexer⟩
  · have failed : Formula.read input = .error ⟨e, []⟩ := by
      rw [Formula.read, Lexer.scan_of_error read]
      rfl
    rw [enter, failed, descend, read]
    rfl
  · have answer : Formula.read input = Descent.runAhead {} token lexer := by
      rw [Formula.read, Descent.scan_of_ahead read]
      rfl
    have fits : Descent.size token lexer < input.length + 1 := by
      have few := Descent.length_tokens_scan_le (Lexer.ofString input)
      rw [Descent.scan_of_ahead read] at few
      exact Nat.lt_succ_of_le few
    rw [enter, answer, descend, read]
    dsimp only
    rcases Descent.expression_cases fits with ⟨f, t, l, enacts, accepted⟩ | ⟨e, completed, t, l, enacts, refused⟩
    · rw [accepted, enacts]
      simp only [Descent.Outcome.enact, bind_assoc, Checked.ok_bind]
    · rw [refused, enacts]
      simp only [Descent.Outcome.enact, bind_assoc, Checked.ok_bind]
      rfl

end Propositional.Arena
