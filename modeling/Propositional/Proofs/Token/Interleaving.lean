import Propositional.Proofs.Token.Lexer

/-!
# Lexers that are asked in two ways

A lexer can be asked for the next token or for the next item of its finite sequence, one way after the
other and in any order. Both ways move it through the text alike and differ only in when they stop: the
sequence is over after the end mark, whoever has read it, and after an error that was an item. So the
record of any calls holds the answers of a lexer that is asked for tokens only, with gaps where the
sequence was over.
-/

namespace Propositional.Lexer

inductive Call where
  | token
  | item
  deriving DecidableEq, Repr

abbrev Answer := Option (Except SyntaxError Token)

def ask (l : Lexer) : Call → Answer × Lexer
  | .token => (some l.next.1, l.next.2)
  | .item => l.next?

def record (l : Lexer) : List Call → List (Call × Answer)
  | [] => []
  | call :: later => (call, (l.ask call).1) :: (l.ask call).2.record later

/-- What a lexer answers that has been asked for `k` tokens before and for nothing else. -/
def nth (l : Lexer) : Nat → Except SyntaxError Token
  | 0 => l.next.1
  | k + 1 => l.next.2.nth k

/-- Whether a call with this answer closes the sequence. -/
def Closes : Call × Answer → Prop
  | (_, some (.ok token)) => token.kind = .eof
  | (call, some (.error _)) => call = .item
  | (_, none) => False

variable {l m : Lexer} {call : Call} {calls : List Call} {token : Token}
  {earlier later : List (Call × Answer)} {entry : Call × Answer}

/-! ### Reading and the place in the text -/

def place (l : Lexer) : List Char × Nat := (l.rest, l.offset)

theorem readAt_of_offset (same : l.offset = m.offset) (c : Char) (rest : List Char) :
    (l.readAt c rest).1 = (m.readAt c rest).1 ∧ (l.readAt c rest).2.place = (m.readAt c rest).2.place := by
  unfold readAt advance place
  rw [same]
  repeat' split
  all_goals exact ⟨rfl, rfl⟩

theorem next_of_place (same : l.place = m.place) :
    l.next.1 = m.next.1 ∧ l.next.2.place = m.next.2.place := by
  obtain ⟨rest, offset⟩ := Prod.mk.inj same
  have skipped : l.skipBlank.rest = m.skipBlank.rest ∧ l.skipBlank.offset = m.skipBlank.offset := by
    unfold skipBlank
    rw [rest, offset]
    exact ⟨rfl, rfl⟩
  unfold next
  dsimp only
  rw [skipped.1]
  split
  · rw [skipped.2]
    exact ⟨rfl, rfl⟩
  · exact readAt_of_offset skipped.2 _ _

/-- The lexer has come to the end, and this is its end mark. -/
def Ended (l : Lexer) (eof : Token) : Prop := l.rest = [] ∧ eof = ⟨.eof, "", l.offset⟩

theorem next_of_ended (ended : l.Ended token) :
    l.next.1 = .ok token ∧ l.next.2.place = l.place := by
  obtain ⟨rest, rfl⟩ := ended
  have stays : l.skipBlank = l := by
    unfold skipBlank
    rw [rest]
    show ({ l with rest := [], offset := l.offset } : Lexer) = l
    rw [← rest]
  unfold next place
  dsimp only
  rw [stays, rest]
  exact ⟨rfl, rfl⟩

/-- Reading comes to the end, or it leaves the sequence open or closed as it was. -/
theorem next_cases (l : Lexer) :
    (∃ eof, l.next.1 = .ok eof ∧ eof.kind = .eof ∧ l.next.2.Ended eof ∧ l.next.2.done = true) ∨
      (∀ token, l.next.1 = .ok token → token.kind ≠ .eof) ∧ l.next.2.done = l.done := by
  unfold next
  dsimp only
  split
  · rename_i found
    exact Or.inl ⟨_, rfl, rfl, ⟨found, rfl⟩, rfl⟩
  · rename_i c rest found
    right
    unfold readAt
    split
    · exact ⟨by rintro _ ⟨⟩; exact nofun, rfl⟩
    · split
      · exact ⟨by rintro _ ⟨⟩; exact nofun, rfl⟩
      · split
        · exact ⟨by rintro _ ⟨⟩; exact Token.Kind.ofWord_ne_eof _, rfl⟩
        · exact ⟨by rintro _ ⟨⟩, rfl⟩

theorem done_next (l : Lexer) : l.next.2.done = true ↔ l.done = true ∨ Closes (.token, some l.next.1) := by
  rcases l.next_cases with ⟨eof, read, last, -, finished⟩ | ⟨more, kept⟩
  · rw [read, finished]
    exact ⟨fun _ => Or.inr last, fun _ => rfl⟩
  · rw [kept]
    cases read : l.next.1 with
    | ok token => exact ⟨Or.inl, fun either => either.resolve_right (more token read)⟩
    | error e => exact ⟨Or.inl, fun either => either.resolve_right nofun⟩

/-! ### One call -/

/-- Only a call for an item of a sequence that is over has no answer. Any other reads on, and it may close
the sequence. -/
theorem ask_cases (l : Lexer) (call : Call) :
    (call = .item ∧ l.done = true ∧ l.ask call = (none, l)) ∨
      (call = .token ∨ l.done = false) ∧ (l.ask call).1 = some l.next.1 ∧
        (l.ask call).2.place = l.next.2.place ∧
        ((l.ask call).2.done = true ↔ l.done = true ∨ Closes (call, some l.next.1)) := by
  cases call with
  | token => exact Or.inr ⟨Or.inl rfl, rfl, rfl, l.done_next⟩
  | item =>
    unfold ask next?
    dsimp only
    split
    · rename_i finished
      exact Or.inl ⟨rfl, finished, rfl⟩
    · rename_i still
      refine Or.inr ⟨Or.inr (Bool.eq_false_iff.mpr still), ?_⟩
      have closing := l.done_next
      split <;> rename_i read <;> rw [read] at closing ⊢
      · exact ⟨rfl, rfl, closing⟩
      · exact ⟨rfl, rfl, ⟨fun _ => Or.inr rfl, fun _ => rfl⟩⟩

theorem done_ask (l : Lexer) (call : Call) :
    (l.ask call).2.done = true ↔ l.done = true ∨ Closes (call, (l.ask call).1) := by
  rcases l.ask_cases call with ⟨rfl, finished, refused⟩ | ⟨-, answered, -, closing⟩
  · rw [refused]
    exact ⟨Or.inl, fun _ => finished⟩
  · rw [answered]
    exact closing

theorem ended_of_ask (answered : (l.ask call).1 = some (.ok token)) (last : token.kind = .eof) :
    (l.ask call).2.Ended token := by
  rcases l.ask_cases call with ⟨rfl, finished, refused⟩ | ⟨-, same, moved, -⟩
  · rw [refused] at answered
    cases answered
  · obtain read := Option.some.inj (same.symm.trans answered)
    rcases l.next_cases with ⟨eof, read', -, ended, -⟩ | ⟨more, -⟩
    · obtain rfl := Except.ok.inj (read'.symm.trans read)
      obtain ⟨rest, offset⟩ := Prod.mk.inj moved
      unfold Ended
      rw [rest, offset]
      exact ended
    · exact absurd last (more token read)

theorem Ended.ask (ended : l.Ended token) (call : Call) :
    (l.ask call).2.Ended token ∧ (call = .token → (l.ask call).1 = some (.ok token)) := by
  obtain ⟨read, stays⟩ := next_of_ended ended
  rcases l.ask_cases call with ⟨rfl, finished, refused⟩ | ⟨-, answered, moved, -⟩
  · rw [refused]
    exact ⟨ended, nofun⟩
  · obtain ⟨rest, offset⟩ := Prod.mk.inj (moved.trans stays)
    unfold Ended
    rw [rest, offset, answered, read]
    exact ⟨ended, fun _ => rfl⟩

/-! ### A record of calls -/

theorem map_fst_record (l : Lexer) (calls : List Call) : (l.record calls).map Prod.fst = calls := by
  induction calls generalizing l with
  | nil => rfl
  | cons call later ih => exact congrArg (call :: ·) (ih (l.ask call).2)

theorem answers_record (same : l.place = m.place) (calls : List Call) (k : Nat) (answer : Except SyntaxError Token)
    (found : ((l.record calls).filterMap Prod.snd)[k]? = some answer) : answer = m.nth k := by
  induction calls generalizing l m k with
  | nil => cases found
  | cons call later ih =>
    unfold record at found
    rcases l.ask_cases call with ⟨rfl, -, refused⟩ | ⟨-, answered, moved, -⟩
    · rw [refused] at found
      exact ih same k found
    · rw [answered] at found
      change (l.next.1 :: ((l.ask call).2.record later).filterMap Prod.snd)[k]? = some answer at found
      obtain ⟨first, others⟩ := next_of_place same
      cases k with
      | zero =>
        obtain rfl := Option.some.inj found
        exact first
      | succ k => exact ih (moved.trans others) k found

/-- At each entry of a record there was a lexer that was asked, and what came before tells whether its
sequence was over. -/
theorem exists_lexer (recorded : l.record calls = earlier ++ entry :: later) :
    ∃ (m : Lexer) (call : Call) (following : List Call), entry = (call, (m.ask call).1) ∧
      later = (m.ask call).2.record following ∧ (m.done = true ↔ l.done = true ∨ ∃ e ∈ earlier, Closes e) := by
  induction earlier generalizing l calls with
  | nil =>
    cases calls with
    | nil => cases recorded
    | cons call following =>
      obtain ⟨first, others⟩ := List.cons.inj recorded
      exact ⟨l, call, following, first.symm, others.symm, by simp⟩
  | cons e earlier ih =>
    cases calls with
    | nil => cases recorded
    | cons call following =>
      obtain ⟨first, others⟩ := List.cons.inj recorded
      obtain ⟨m, call', following', asked, rest, finished⟩ := ih others
      refine ⟨m, call', following', asked, rest, finished.trans ?_⟩
      simp only [done_ask, first, List.mem_cons, exists_eq_or_imp, or_assoc]

theorem Ended.record (ended : l.Ended token) (calls : List Call) :
    ∀ answer, (Call.token, answer) ∈ l.record calls → answer = some (.ok token) := by
  induction calls generalizing l with
  | nil => exact nofun
  | cons call later ih =>
    obtain ⟨still, answered⟩ := ended.ask call
    intro answer member
    rcases List.mem_cons.mp member with same | member
    · obtain ⟨rfl, rfl⟩ := Prod.mk.inj same
      exact answered rfl
    · exact ih still answer member

/-! ### The whole sequence -/

/-- The tokens of a scan as items, and then its end mark or its error. -/
def items (l : Lexer) : List (Except SyntaxError Token) := l.scan.tokens.map Except.ok ++ [l.scan.ending]

theorem answers_of_done (finished : l.done = true) (n : Nat) :
    (l.record (List.replicate n .item)).map Prod.snd = List.replicate n none := by
  have refused : l.ask .item = (none, l) := by
    unfold ask next?
    exact if_pos finished
  induction n with
  | zero => rfl
  | succ n ih =>
    rw [List.replicate_succ, List.replicate_succ, record, refused, List.map_cons]
    exact congrArg (none :: ·) ih

theorem ask_item_of_open (opened : l.done = false) : l.ask .item =
    match l.next with
    | (.ok token, l) => (some (.ok token), l)
    | (.error e, l) => (some (.error e), { l with done := true }) := by
  unfold ask next?
  rw [opened]
  rfl

/-- A lexer that is asked for items only gives those of its scan, and then none however often it is asked. -/
theorem answers_items (opened : l.done = false) (more : Nat) :
    (l.record (List.replicate (l.items.length + more) .item)).map Prod.snd =
      l.items.map some ++ List.replicate more none := by
  have asked := ask_item_of_open opened
  have kept := l.done_next
  induction l using Lexer.scan.induct with
  | case1 l e l' read =>
    rw [items, scan_of_error read]
    rw [read] at asked
    change (l.record (List.replicate (1 + more) .item)).map Prod.snd = some (.error e) :: List.replicate more none
    rw [Nat.add_comm, List.replicate_succ, record, asked, List.map_cons]
    have finished : ({ l' with done := true } : Lexer).done = true := rfl
    exact congrArg (some (.error e) :: ·) (answers_of_done finished more)
  | case2 l token l' read last =>
    rw [items, scan_of_eof read last]
    rw [read] at asked kept
    change (l.record (List.replicate (1 + more) .item)).map Prod.snd = some (.ok token) :: List.replicate more none
    rw [Nat.add_comm, List.replicate_succ, record, asked, List.map_cons]
    exact congrArg (some (.ok token) :: ·) (answers_of_done (kept.mpr (Or.inr last)) more)
  | case3 l token l' read further ih =>
    rw [read] at asked kept
    have opened' : l'.done = false := by
      rw [← Bool.not_eq_true, kept, opened]
      simpa [Closes] using further
    have split : l.items = .ok token :: l'.items := by
      rw [items, scan_of_next read further]
      rfl
    rw [split, List.length_cons, Nat.add_right_comm, List.replicate_succ, record, asked, List.map_cons, List.map_cons,
      List.cons_append]
    exact congrArg (some (.ok token) :: ·) (ih opened' (ask_item_of_open opened') l'.done_next)

/-- The tokens of a text are its items, collected up to the first error. -/
theorem tokenize_eq_mapM_items (input : String) : tokenize input = (ofString input).items.mapM id := by
  have collected : ∀ tokens : List Token, (tokens.map Except.ok).mapM id = (.ok tokens : Except SyntaxError _) := by
    intro tokens
    induction tokens with
    | nil => rfl
    | cons token later ih =>
      rw [List.map_cons, List.mapM_cons, ih]
      rfl
  unfold tokenize items
  dsimp only
  rw [List.mapM_append, collected]
  cases (ofString input).scan.ending <;> rfl

/-- The record of calls on a lexer misses no token, has none twice and has them in order. -/
structure Faithful (l : Lexer) (calls : List Call) (record : List (Call × Answer)) : Prop where
  asked : record.map Prod.fst = calls
  in_order : ∀ k answer, (record.filterMap Prod.snd)[k]? = some answer → answer = l.nth k
  over_iff : ∀ earlier answer later, record = earlier ++ (.item, answer) :: later →
    (answer = none ↔ ∃ entry ∈ earlier, Closes entry)
  ended : ∀ earlier call eof later, record = earlier ++ (call, some (.ok eof)) :: later → eof.kind = .eof →
    ∀ answer, (Call.token, answer) ∈ later → answer = some (.ok eof)

/-- However the two ways of asking a lexer alternate, its answers are those of a lexer that is asked for
tokens only. An item is missing exactly if an earlier call has closed the sequence, and behind the end mark
there is nothing but the end mark. -/
theorem record_faithful (input : String) (calls : List Call) :
    (ofString input).Faithful calls ((ofString input).record calls) where
  asked := map_fst_record _ _
  in_order := answers_record rfl calls
  over_iff earlier answer later recorded := by
    obtain ⟨m, call, following, asked, -, finished⟩ := exists_lexer recorded
    obtain ⟨rfl, rfl⟩ := Prod.mk.inj asked
    have opened : (ofString input).done = true ↔ False := by simp [ofString]
    rw [opened, false_or] at finished
    rw [← finished]
    rcases m.ask_cases .item with ⟨-, closed, refused⟩ | ⟨still, answered, -⟩
    · rw [refused, closed]
      exact ⟨fun _ => rfl, fun _ => rfl⟩
    · rw [answered, still.resolve_left (by decide)]
      simp
  ended earlier call eof later recorded last := by
    obtain ⟨m, call', following, asked, rfl, -⟩ := exists_lexer recorded
    obtain ⟨rfl, answered⟩ := Prod.mk.inj asked
    exact (ended_of_ask answered.symm last).record following

-- An error ends the sequence of items, and tokens are still read behind it.
example : ((ofString "& x").record [.item, .item, .token, .item, .token]).map
    (fun entry => entry.2.map fun answer => answer.toOption.map Token.text) =
    [some none, none, some (some "x"), none, some (some "")] := by
  decide +kernel

end Propositional.Lexer
