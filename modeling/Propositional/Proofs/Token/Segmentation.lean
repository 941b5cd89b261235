import Propositional.Proofs.Token.Lexer

/-!
# Tokens as parts of a text

A text is cut into white space and tokens, from its start to its end or to a character that no token
takes. `Segments` is that cutting, a piece at a time with the byte offset of each piece, and a lexer
finds it. `Tokenization` says of each token alone where it lies and that it cannot be longer, and of each
character outside the tokens that it is white space. The two agree, so a text has one tokenization.
-/

namespace Propositional

open Lexer

/-! ### Classes of characters -/

namespace Text.CharSet

def apart (s t : CharSet) : Bool := s.all fun a => t.all fun b => a.2 < b.1 || b.2 < a.1

theorem contains_eq_false_of_apart {s t : CharSet} {c : Char} (disjoint : s.apart t = true)
    (inside : s.contains c = true) : t.contains c = false := by
  obtain ⟨a, a_mem, above, below⟩ := contains_iff.mp inside
  apply Bool.eq_false_iff.mpr
  intro both
  obtain ⟨b, b_mem, above', below'⟩ := contains_iff.mp both
  simp only [apart, List.all_eq_true, Bool.or_eq_true, decide_eq_true_eq] at disjoint
  have := disjoint a a_mem b b_mem
  omega

end Text.CharSet

theorem continuesWord_of_isBlank {c : Char} (blank : Text.isBlank c = true) : continuesWord c = false := by
  have letters : Text.isAlphabetic c = false :=
    Text.CharSet.contains_eq_false_of_apart (s := Text.blank) (by decide +kernel) blank
  have numbers : Text.isNumeric c = false :=
    Text.CharSet.contains_eq_false_of_apart (s := Text.blank) (by decide +kernel) blank
  have underscore : c ≠ '_' := by
    rintro rfl
    exact absurd blank (by decide)
  simp [continuesWord, letters, numbers, underscore]

theorem continuesWord_of_startsWord {c : Char} (starts : startsWord c = true) : continuesWord c = true := by
  simp only [startsWord, continuesWord, Bool.or_eq_true] at starts ⊢
  exact starts.imp_left Or.inl

theorem isWord_iff {chars : List Char} : isWord chars = true ↔
    ∃ c later, chars = c :: later ∧ startsWord c = true ∧ ∀ d ∈ later, continuesWord d = true := by
  constructor
  · intro word
    cases chars with
    | nil => cases word
    | cons c later =>
      obtain ⟨-, -, -, starts, continued⟩ := isWord_cons_iff.mp word
      exact ⟨c, later, rfl, starts, continued⟩
  · rintro ⟨c, later, rfl, starts, continued⟩
    -- Neither white space nor a parenthesis continues a word, so neither starts one.
    have goesOn := continuesWord_of_startsWord starts
    apply isWord_cons_iff.mpr
    refine ⟨?_, ?_, ?_, starts, continued⟩
    · apply Bool.eq_false_iff.mpr
      intro blank
      rw [continuesWord_of_isBlank blank] at goesOn
      cases goesOn
    · rintro rfl
      rw [continuesWord_openParen] at goesOn
      cases goesOn
    · rintro rfl
      rw [continuesWord_closeParen] at goesOn
      cases goesOn

theorem byteLength_toList (s : String) : byteLength s.toList = s.utf8ByteSize := by
  have encoded : ∀ chars : List Char, byteLength chars = (String.ofList chars).utf8ByteSize := by
    intro chars
    induction chars with
    | nil => rfl
    | cons c later ih =>
      rw [byteLength_cons, ih, String.ofList_cons, String.utf8ByteSize_append, String.utf8ByteSize_singleton]
  rw [encoded, String.ofList_toList]

/-! ### Cutting a text -/

def Token.stop (t : Token) : Nat := t.offset + byteLength t.text.toList

theorem stop_of_offset {t : Token} {start : Nat} {blanks : List Char}
    (offset : t.offset = start + byteLength blanks) (later : List Char) :
    start + byteLength (blanks ++ (t.text.toList ++ later)) = t.stop + byteLength later := by
  rw [Token.stop, offset, byteLength_append, byteLength_append]
  omega

/-- A text that stands at the offset `start` and has `rest` behind it is cut into these tokens and the
white space in front of, between and behind them. -/
inductive Segments : Nat → List Char → List Char → List Token → Prop where
  | blank {start : Nat} {blanks rest : List Char} (blank : ∀ b ∈ blanks, Text.isBlank b = true) :
      Segments start blanks rest []
  | token {start : Nat} {blanks later rest : List Char} {t : Token} {tokens : List Token}
      (blank : ∀ b ∈ blanks, Text.isBlank b = true) (spelled : t.Spelled)
      (ends : isWord t.text.toList = true → EndsWord (later ++ rest))
      (offset : t.offset = start + byteLength blanks) (others : Segments t.stop later rest tokens) :
      Segments start (blanks ++ (t.text.toList ++ later)) rest (t :: tokens)

/-- How reading ends in front of `rest`. -/
def Lexer.Stops (offset : Nat) : List Char → Except SyntaxError Token → Prop
  | [], ending => ending = .ok ⟨.eof, "", offset⟩
  | c :: _, ending =>
    Text.isBlank c = false ∧ startsToken c = false ∧ ending = .error (.unexpectedChar c offset)

namespace Lexer

variable {l l' : Lexer} {t : Token} {tokens : List Token} {start : Nat} {read rest : List Char}

theorem endsWord_dropWhile (chars : List Char) : EndsWord (chars.dropWhile continuesWord) := by
  intro d first
  have head := List.head?_dropWhile_not continuesWord chars
  rw [Option.mem_def.mp first] at head
  simpa using head

theorem readAt_ends {c : Char} (step : l.readAt c rest = (.ok t, l')) :
    t.offset = l.offset ∧ l'.offset = t.stop ∧ (isWord t.text.toList = true → EndsWord l'.rest) := by
  unfold readAt at step
  split at step
  · rename_i isOpen
    cases step
    exact ⟨rfl, by simp [advance, Token.stop, isOpen], fun word => absurd word (by simp [isWord])⟩
  · split at step
    · rename_i isClose
      cases step
      exact ⟨rfl, by simp [advance, Token.stop, isClose], fun word => absurd word (by simp [isWord])⟩
    · split at step
      · cases step
        refine ⟨rfl, ?_, fun _ => endsWord_dropWhile rest⟩
        simp [advance, Token.stop]
      · cases step

theorem next_token (step : l.next = (.ok t, l')) (more : t.kind ≠ .eof) :
    ∃ blanks, (∀ b ∈ blanks, Text.isBlank b = true) ∧ l.rest = blanks ++ (t.text.toList ++ l'.rest) ∧
      t.Spelled ∧ t.offset = l.offset + byteLength blanks ∧ l'.offset = t.stop ∧
      (isWord t.text.toList = true → EndsWord l'.rest) := by
  obtain ⟨blanks, blank, split, skipped, solid⟩ := l.exists_blanks
  unfold next at step
  dsimp only at step
  split at step
  · cases step
    exact absurd rfl more
  · rename_i c rest found
    obtain ⟨spelled, text⟩ := readAt_spelled (solid c (by rw [found]; rfl)) step
    obtain ⟨place, stop, ends⟩ := readAt_ends step
    refine ⟨blanks, blank, by rw [split, found, text], spelled, ?_, stop, ends⟩
    rw [place, skipped]
    rfl

theorem next_eof (step : l.next = (.ok t, l')) (last : t.kind = .eof) :
    (∀ b ∈ l.rest, Text.isBlank b = true) ∧ t = ⟨.eof, "", l.offset + byteLength l.rest⟩ := by
  obtain ⟨blanks, blank, split, skipped, solid⟩ := l.exists_blanks
  unfold next at step
  dsimp only at step
  split at step
  · rename_i found
    cases step
    rw [found, List.append_nil] at split
    refine ⟨by rw [split]; exact blank, ?_⟩
    rw [skipped, split]
    rfl
  · rename_i c rest found
    exact absurd last (readAt_spelled (solid c (by rw [found]; rfl)) step).1.kind_ne_eof

/-- What a lexer reads is a cutting of its text. -/
theorem scan_segments (l : Lexer) : ∃ read rest, l.rest = read ++ rest ∧
    Segments l.offset read rest l.scan.tokens ∧ Stops (l.offset + byteLength read) rest l.scan.ending := by
  induction l using scan.induct with
  | case1 l e after step =>
    obtain ⟨c, rest, found, starts, rfl⟩ := next_eq_error step
    obtain ⟨blanks, blank, split, skipped, solid⟩ := l.exists_blanks
    rw [scan_of_error step]
    refine ⟨blanks, c :: rest, by rw [← found]; exact split, .blank blank, ?_⟩
    refine ⟨solid c (by rw [found]; rfl), starts, ?_⟩
    rw [skipped]
    rfl
  | case2 l token after step last =>
    obtain ⟨blank, rfl⟩ := next_eof step last
    rw [scan_of_eof step last]
    exact ⟨l.rest, [], (List.append_nil _).symm, .blank blank, rfl⟩
  | case3 l token after step more ih =>
    obtain ⟨read, rest, text, segments, stops⟩ := ih
    obtain ⟨blanks, blank, split, spelled, place, stop, ends⟩ := next_token step more
    rw [scan_of_next step more]
    rw [text] at split ends
    rw [stop] at segments stops
    refine ⟨blanks ++ (token.text.toList ++ read), rest, ?_, .token blank spelled ends place segments, ?_⟩
    · rw [split]
      simp only [List.append_assoc]
    · rw [stop_of_offset place]
      exact stops

theorem readAt_of_spelled (spelled : t.Spelled) (offset : t.offset = l.offset)
    (ends : isWord t.text.toList = true → EndsWord rest) : ∃ c word, t.text.toList = c :: word ∧
      Text.isBlank c = false ∧ l.readAt c (word ++ rest) = (.ok t, l.advance t.text.toList rest) := by
  obtain ⟨kind, text, place⟩ := t
  dsimp only at offset
  subst place
  rcases spelled with lexeme | lexeme | ⟨word, kind⟩
  · cases lexeme
    exact ⟨'(', [], by simp, by decide, by simp [readAt]⟩
  · cases lexeme
    exact ⟨')', [], by simp, by decide, by simp [readAt]⟩
  · dsimp only at word kind ends
    cases chars : text.toList with
    | nil =>
      rw [chars] at word
      cases word
    | cons c later =>
      rw [chars] at word ends
      obtain ⟨solid, notOpen, notClose, starts, continued⟩ := isWord_cons_iff.mp word
      obtain ⟨taken, dropped⟩ := span_word continued (ends word)
      have whole : String.ofList (c :: later) = text := by rw [← chars, String.ofList_toList]
      refine ⟨c, later, rfl, solid, ?_⟩
      rw [readAt, if_neg notOpen, if_neg notClose, if_pos starts, taken, dropped, kind]
      simp only [whole]

theorem skipBlank_of_rest {blanks : List Char} (blank : ∀ b ∈ blanks, Text.isBlank b = true)
    (solid : ∀ c ∈ rest.head?, Text.isBlank c = false) (text : l.rest = blanks ++ rest) :
    l.skipBlank = l.advance blanks rest := by
  rw [← l.skipBlank_append blank rest solid, ← text]

theorem next_of_cons {blanks : List Char} {c : Char} (blank : ∀ b ∈ blanks, Text.isBlank b = true)
    (solid : Text.isBlank c = false) (text : l.rest = blanks ++ c :: rest) :
    l.next = (l.advance blanks (c :: rest)).readAt c rest := by
  have skipped : l.skipBlank = l.advance blanks (c :: rest) :=
    skipBlank_of_rest blank (by simpa using solid) text
  rw [next, skipped]
  rfl

/-- A cutting of its text is what a lexer reads. -/
theorem scan_of_segments {ending : Except SyntaxError Token} (segments : Segments start read rest tokens)
    (stops : Stops (start + byteLength read) rest ending) (at_start : l.offset = start)
    (text : l.rest = read ++ rest) : l.scan = ⟨tokens, ending⟩ := by
  induction segments generalizing l with
  | @blank start blanks rest blank =>
    cases rest with
    | nil =>
      have step : l.next = (.ok ⟨.eof, "", l.offset + byteLength blanks⟩,
          { l.advance blanks [] with done := true }) := by
        rw [next, skipBlank_of_rest blank (by simp) text]
        rfl
      rw [scan_of_eof step rfl, stops, at_start]
    | cons c later =>
      obtain ⟨solid, starts, rfl⟩ := stops
      obtain ⟨⟨notOpen, notClose⟩, noWord⟩ : (c ≠ '(' ∧ c ≠ ')') ∧ startsWord c = false := by
        simpa [startsToken] using starts
      have step := next_of_cons blank solid text
      rw [readAt, if_neg notOpen, if_neg notClose, if_neg (by simp [noWord])] at step
      rw [scan_of_error step, ← at_start]
      rfl
  | @token start blanks later rest t tokens blank spelled ends offset others ih =>
    obtain ⟨c, word, chars, solid, step⟩ := readAt_of_spelled
      (l := l.advance blanks (t.text.toList ++ (later ++ rest))) spelled (by rw [offset, ← at_start]; rfl) ends
    have read : l.next = (.ok t, (l.advance blanks (t.text.toList ++ (later ++ rest))).advance
        t.text.toList (later ++ rest)) := by
      rw [← step, chars]
      apply next_of_cons blank solid
      rw [text, chars]
      simp
    rw [scan_of_next read spelled.kind_ne_eof, ih]
    · rwa [stop_of_offset offset] at stops
    · rw [Token.stop, offset, ← at_start]
      rfl
    · rfl

end Lexer

/-! ### Every token in its place -/

/-- A word is a keyword exactly if its whole text is one. -/
def Token.Classified (t : Token) : Prop :=
  (t.kind = .true ↔ t.text = "TRUE") ∧ (t.kind = .false ↔ t.text = "FALSE") ∧
    (t.kind = .and ↔ t.text = "AND") ∧ (t.kind = .or ↔ t.text = "OR") ∧ (t.kind = .not ↔ t.text = "NOT") ∧
    (t.kind = .ident ↔ t.text ∉ ["TRUE", "FALSE", "AND", "OR", "NOT"])

/-- A token that has `before` in front of it and `after` behind it is a parenthesis, or a word that
takes in neither a character before it nor one behind it. -/
def Token.Munched (t : Token) (before after : List Char) : Prop :=
  t.kind = .openParen ∧ t.text = "(" ∨ t.kind = .closeParen ∧ t.text = ")" ∨
    (∃ c later, t.text.toList = c :: later ∧ startsWord c = true ∧ ∀ d ∈ later, continuesWord d = true) ∧
      (∀ d ∈ before.getLast?, continuesWord d = false) ∧ (∀ d ∈ after.head?, continuesWord d = false) ∧
      t.Classified

/-- Whether the byte at the offset belongs to the token. -/
def Token.Covers (t : Token) (offset : Nat) : Prop := t.offset ≤ offset ∧ offset < t.stop

/-- These are the tokens of a text that stands at the offset `start` and has `rest` behind it. -/
structure Tokenization (start : Nat) (text rest : List Char) (tokens : List Token) : Prop where
  nonempty : ∀ t ∈ tokens, t.text ≠ ""
  slice : ∀ t ∈ tokens, ∃ before after, text = before ++ (t.text.toList ++ after) ∧
    t.offset = start + byteLength before ∧ t.Munched before (after ++ rest)
  increasing : tokens.Pairwise fun t u => t.offset < u.offset
  apart : tokens.Pairwise fun t u => t.stop ≤ u.offset
  blank : ∀ before c after, text = before ++ c :: after →
    (∀ t ∈ tokens, ¬t.Covers (start + byteLength before)) → Text.isBlank c = true

namespace Token

variable {t : Token} {before after : List Char}

theorem classified_iff : t.Classified ↔ t.kind = .ofWord t.text := by
  obtain ⟨kind, text, offset⟩ := t
  unfold Classified Kind.ofWord
  dsimp only
  grind

theorem Munched.spelled (munched : t.Munched before after) :
    t.Spelled ∧ (isWord t.text.toList = true → EndsWord after) := by
  rcases munched with ⟨kind, text⟩ | ⟨kind, text⟩ | ⟨run, -, ends, classified⟩
  · exact ⟨Or.inl (by rw [lexeme, kind, text]), fun word => absurd word (by simp [text, isWord])⟩
  · exact ⟨Or.inr (Or.inl (by rw [lexeme, kind, text])), fun word => absurd word (by simp [text, isWord])⟩
  · exact ⟨Or.inr (Or.inr ⟨isWord_iff.mpr run, classified_iff.mp classified⟩), fun _ => ends⟩

theorem Spelled.munched (spelled : t.Spelled)
    (begins : isWord t.text.toList = true → ∀ d ∈ before.getLast?, continuesWord d = false)
    (ends : isWord t.text.toList = true → EndsWord after) : t.Munched before after := by
  rcases spelled with lexeme | lexeme | ⟨word, kind⟩
  · exact Or.inl (Prod.mk.inj lexeme)
  · exact Or.inr (Or.inl (Prod.mk.inj lexeme))
  · exact Or.inr (Or.inr ⟨isWord_iff.mp word, begins word, ends word, classified_iff.mpr kind⟩)

theorem Munched.begins (munched : t.Munched before after) (word : isWord t.text.toList = true) :
    ∀ d ∈ before.getLast?, continuesWord d = false := by
  rcases munched with ⟨-, text⟩ | ⟨-, text⟩ | ⟨-, begins, -⟩
  · exact absurd word (by simp [text, isWord])
  · exact absurd word (by simp [text, isWord])
  · exact begins

theorem Munched.append_left {front : List Char} (munched : t.Munched before after)
    (begins : before = [] → isWord t.text.toList = true → ∀ d ∈ front.getLast?, continuesWord d = false) :
    t.Munched (front ++ before) after := by
  obtain ⟨spelled, ends⟩ := munched.spelled
  refine spelled.munched (fun word d last => ?_) ends
  rw [List.getLast?_append] at last
  cases found : before.getLast? with
  | none =>
    rw [found, Option.none_or] at last
    exact begins (List.getLast?_eq_none_iff.mp found) word d last
  | some d' =>
    rw [found, Option.some_or] at last
    exact munched.begins word d (by rw [found]; exact last)

theorem Munched.of_append_left {front : List Char} (munched : t.Munched (front ++ before) after) :
    t.Munched before after := by
  obtain ⟨spelled, ends⟩ := munched.spelled
  refine spelled.munched (fun word d last => ?_) ends
  apply munched.begins word d
  rw [List.getLast?_append, Option.mem_def.mp last]
  rfl

theorem Spelled.toList_ne_nil (spelled : t.Spelled) : t.text.toList ≠ [] := by
  intro empty
  rcases spelled with lexeme | lexeme | ⟨word, -⟩
  · rw [(Prod.mk.inj lexeme).2] at empty
    simp at empty
  · rw [(Prod.mk.inj lexeme).2] at empty
    simp at empty
  · rw [empty] at word
    cases word

theorem Spelled.offset_lt_stop (spelled : t.Spelled) : t.offset < t.stop := by
  obtain ⟨c, later, chars⟩ := List.exists_cons_of_ne_nil spelled.toList_ne_nil
  have positive := c.utf8Size_pos
  rw [stop, chars, byteLength_cons]
  omega

/-- If a word can follow a token at once, the last character of the token is none of a word's. -/
theorem Spelled.last_of_word {u : Token} {later : List Char} (spelled : t.Spelled)
    (ends : isWord t.text.toList = true → EndsWord (u.text.toList ++ later))
    (word : isWord u.text.toList = true) : ∀ d ∈ t.text.toList.getLast?, continuesWord d = false := by
  intro d last
  rcases spelled with lexeme | lexeme | ⟨isWord, -⟩
  · rw [(Prod.mk.inj lexeme).2] at last
    obtain rfl : '(' = d := by simpa using last
    exact continuesWord_openParen
  · rw [(Prod.mk.inj lexeme).2] at last
    obtain rfl : ')' = d := by simpa using last
    exact continuesWord_closeParen
  · obtain ⟨c, others, chars, starts, -⟩ := isWord_iff.mp word
    have stops : continuesWord c = false := ends isWord c (by rw [chars]; rfl)
    rw [continuesWord_of_startsWord starts] at stops
    cases stops

end Token

theorem byteLength_eq_zero_iff {chars : List Char} : byteLength chars = 0 ↔ chars = [] := by
  cases chars with
  | nil => simp [byteLength]
  | cons c later =>
    have positive := c.utf8Size_pos
    simp only [byteLength_cons, reduceCtorEq, iff_false]
    omega

/-- Of two places in a text, the one with the smaller offset comes first. -/
theorem exists_between {xs xs' ys ys' : List Char} (same : xs ++ xs' = ys ++ ys')
    (le : byteLength xs ≤ byteLength ys) : ∃ between, ys = xs ++ between ∧ xs' = between ++ ys' := by
  rcases List.append_eq_append_iff.mp same with ⟨between, split, split'⟩ | ⟨back, split, split'⟩
  · exact ⟨between, split, split'⟩
  · rw [split, byteLength_append] at le
    obtain rfl : back = [] := byteLength_eq_zero_iff.mp (by omega)
    exact ⟨[], by simpa using split.symm, by simpa using split'.symm⟩

theorem cons_of_append {xs ys before after : List Char} {c : Char} (same : xs ++ ys = before ++ c :: after) :
    (∃ more, xs = before ++ c :: more) ∨ ∃ more, before = xs ++ more ∧ ys = more ++ c :: after := by
  rcases List.append_eq_append_iff.mp same with ⟨more, split, split'⟩ | ⟨more, split, split'⟩
  · exact Or.inr ⟨more, split, split'⟩
  · cases more with
    | nil => exact Or.inr ⟨[], by simpa using split.symm, by simpa using split'.symm⟩
    | cons d more =>
      obtain ⟨rfl, -⟩ := List.cons.inj split'
      exact Or.inl ⟨more, split⟩

namespace Segments

variable {start : Nat} {text rest : List Char} {tokens : List Token}

theorem slice (segments : Segments start text rest tokens) : ∀ t ∈ tokens, ∃ before after,
    text = before ++ (t.text.toList ++ after) ∧ t.offset = start + byteLength before ∧
      t.Munched before (after ++ rest) := by
  induction segments with
  | blank => simp
  | @token start blanks later rest t tokens blank spelled ends offset others ih =>
    intro u member
    rcases List.mem_cons.mp member with rfl | member
    · refine ⟨blanks, later, rfl, offset, spelled.munched (fun _ d last => ?_) ends⟩
      exact continuesWord_of_isBlank (blank d (List.mem_of_mem_getLast? last))
    · obtain ⟨before, after, rfl, place, munched⟩ := ih u member
      refine ⟨blanks ++ (t.text.toList ++ before), after, by simp, ?_, ?_⟩
      · rw [place, stop_of_offset offset]
      · rw [← List.append_assoc]
        apply munched.append_left
        rintro rfl word d last
        have stops : isWord t.text.toList = true → EndsWord (u.text.toList ++ (after ++ rest)) := by
          simpa using ends
        rw [List.getLast?_append, List.getLast?_eq_some_getLast spelled.toList_ne_nil, Option.some_or,
          ← List.getLast?_eq_some_getLast] at last
        exact spelled.last_of_word stops word d last

theorem apart (segments : Segments start text rest tokens) : tokens.Pairwise fun t u => t.stop ≤ u.offset := by
  induction segments with
  | blank => exact .nil
  | @token start blanks later rest t tokens blank spelled ends offset others ih =>
    refine List.pairwise_cons.mpr ⟨fun u member => ?_, ih⟩
    obtain ⟨before, after, -, place, -⟩ := others.slice u member
    omega

theorem spelled (segments : Segments start text rest tokens) : ∀ t ∈ tokens, t.Spelled := by
  intro t member
  obtain ⟨before, after, -, -, munched⟩ := segments.slice t member
  exact munched.spelled.1

theorem isBlank_of_uncovered (segments : Segments start text rest tokens) :
    ∀ before c after, text = before ++ c :: after →
      (∀ t ∈ tokens, ¬t.Covers (start + byteLength before)) → Text.isBlank c = true := by
  induction segments with
  | blank blank =>
    rintro before c after rfl -
    exact blank c (by simp)
  | @token start blanks later rest t tokens blank spelled ends offset others ih =>
    intro before c after whole uncovered
    rcases cons_of_append whole with ⟨more, rfl⟩ | ⟨front, rfl, solid⟩
    · exact blank c (by simp)
    · rcases cons_of_append solid with ⟨more, chars⟩ | ⟨front', rfl, behind⟩
      · -- The character is one of the token's own.
        exfalso
        apply uncovered t (by simp)
        have positive := c.utf8Size_pos
        rw [Token.Covers, Token.stop, chars, offset, byteLength_append, byteLength_append, byteLength_cons]
        omega
      · apply ih front' c after behind
        intro u member
        have elsewhere := uncovered u (List.mem_cons_of_mem t member)
        rwa [stop_of_offset offset] at elsewhere

theorem tokenization (segments : Segments start text rest tokens) : Tokenization start text rest tokens where
  nonempty := by
    intro t member empty
    exact (segments.spelled t member).toList_ne_nil (by rw [empty]; rfl)
  slice := segments.slice
  increasing := by
    apply segments.apart.imp_of_mem
    intro t u member _ le
    exact Nat.lt_of_lt_of_le (segments.spelled t member).offset_lt_stop le
  apart := segments.apart
  blank := segments.isBlank_of_uncovered

theorem cut (segments : Segments start text rest tokens) : Segments start text [] tokens := by
  induction segments with
  | blank blank => exact .blank blank
  | @token start blanks later rest t tokens blank spelled ends offset others ih =>
    refine .token blank spelled (fun word d first => ends word d ?_) offset ih
    rw [List.append_nil] at first
    rw [List.head?_append, Option.mem_def.mp first]
    rfl

end Segments

namespace Tokenization

variable {start : Nat} {text rest : List Char} {t : Token} {tokens : List Token}

/-- What is in front of the first token is white space, and the other tokens are those of what is behind. -/
theorem tail (tokenization : Tokenization start text rest (t :: tokens)) : ∃ blanks later,
    text = blanks ++ (t.text.toList ++ later) ∧ (∀ b ∈ blanks, Text.isBlank b = true) ∧
      t.offset = start + byteLength blanks ∧ t.Munched blanks (later ++ rest) ∧
      Tokenization t.stop later rest tokens := by
  obtain ⟨blanks, later, rfl, offset, munched⟩ := tokenization.slice t (by simp)
  have behind : ∀ u ∈ tokens, t.stop ≤ u.offset := (List.pairwise_cons.mp tokenization.apart).1
  have total := stop_of_offset offset
  refine ⟨blanks, later, rfl, ?_, offset, munched, ?_⟩
  · intro b member
    obtain ⟨before, after, rfl⟩ := List.append_of_mem member
    apply tokenization.blank before b (after ++ (t.text.toList ++ later)) (by simp)
    have positive := b.utf8Size_pos
    have longer := munched.spelled.1.offset_lt_stop
    rw [byteLength_append, byteLength_cons] at offset
    intro u member covers
    obtain ⟨above, -⟩ := covers
    rcases List.mem_cons.mp member with rfl | member
    · omega
    · have := behind u member
      omega
  · refine ⟨fun u member => tokenization.nonempty u (by simp [member]), ?_,
      (List.pairwise_cons.mp tokenization.increasing).2, (List.pairwise_cons.mp tokenization.apart).2, ?_⟩
    · intro u member
      obtain ⟨before, after, split, place, whole⟩ := tokenization.slice u (by simp [member])
      have le : start + byteLength blanks + byteLength t.text.toList ≤ start + byteLength before := by
        rw [← offset, ← place]
        exact behind u member
      have first : byteLength (blanks ++ t.text.toList) ≤ byteLength before := by
        rw [byteLength_append]
        omega
      obtain ⟨between, rfl, inner⟩ := exists_between (by rw [← split, List.append_assoc]) first
      refine ⟨between, after, inner, ?_, whole.of_append_left⟩
      rw [place, List.append_assoc, total]
    · intro before c after split uncovered
      apply tokenization.blank (blanks ++ (t.text.toList ++ before)) c after (by rw [split]; simp)
      rw [total]
      apply List.forall_mem_cons.mpr ⟨?_, uncovered⟩
      rintro ⟨-, below⟩
      omega

theorem segments (tokenization : Tokenization start text rest tokens) : Segments start text rest tokens := by
  induction tokens generalizing start text with
  | nil =>
    apply Segments.blank
    intro b member
    obtain ⟨before, after, rfl⟩ := List.append_of_mem member
    exact tokenization.blank before b after rfl (by simp)
  | cons t tokens ih =>
    obtain ⟨blanks, later, rfl, blank, offset, munched, others⟩ := tokenization.tail
    obtain ⟨spelled, ends⟩ := munched.spelled
    exact Segments.token blank spelled ends offset (ih others)

end Tokenization

variable {input : String} {read rest : List Char} {tokens : List Token}

theorem scan_ofString_of_segments {ending : Except SyntaxError Token} (text : input.toList = read ++ rest)
    (segments : Segments 0 read rest tokens) (stops : Stops (byteLength read) rest ending) :
    (Lexer.ofString input).scan = ⟨tokens, ending⟩ := by
  rw [← Nat.zero_add (byteLength read)] at stops
  exact scan_of_segments segments stops rfl text

theorem tokenize_of_segments (text : input.toList = read) (segments : Segments 0 read [] tokens) :
    tokenize input = .ok (tokens ++ [⟨.eof, "", byteLength read⟩]) := by
  have scanned := scan_ofString_of_segments (by rw [text, List.append_nil]) segments rfl
  apply tokenize_eq_ok_iff.mpr
  rw [tokensOf, scanned]
  exact ⟨_, rfl, rfl⟩

/-- The tokens of a text are its one tokenization and the end mark at its length. Without one, the error
is the first character that is neither white space nor of a token, and what is before it has one. -/
theorem tokenize_maximal_munch (input : String) :
    (∀ tokens, tokenize input = .ok tokens ↔ ∃ body, Tokenization 0 input.toList [] body ∧
      tokens = body ++ [⟨.eof, "", input.utf8ByteSize⟩]) ∧
    ∀ e, tokenize input = .error e ↔ ∃ before c after body, input.toList = before ++ c :: after ∧
      Tokenization 0 before (c :: after) body ∧ Text.isBlank c = false ∧ startsToken c = false ∧
      e = .unexpectedChar c (byteLength before) ∧
      tokenize (String.ofList before) = .ok (body ++ [⟨.eof, "", byteLength before⟩]) := by
  obtain ⟨read, rest, text, segments, stops⟩ := scan_segments (Lexer.ofString input)
  simp only [Lexer.ofString] at text
  refine ⟨fun tokens => ⟨fun tokenized => ?_, ?_⟩, fun e => ⟨fun failed => ?_, ?_⟩⟩
  · obtain ⟨eof, ended, rfl⟩ := tokenize_eq_ok_iff.mp tokenized
    rw [ended] at stops
    cases rest with
    | nil =>
      rw [List.append_nil] at text
      subst text
      cases stops
      refine ⟨_, segments.tokenization, ?_⟩
      rw [← byteLength_toList]
      simp [tokensOf, Lexer.ofString]
    | cons c after => cases stops.2.2
  · rintro ⟨body, tokenization, rfl⟩
    rw [← byteLength_toList]
    exact tokenize_of_segments rfl tokenization.segments
  · rw [tokenize_eq_error_iff.mp failed] at stops
    cases rest with
    | nil => cases stops
    | cons c after =>
      obtain ⟨solid, starts, same⟩ := stops
      obtain rfl := Except.error.inj same
      refine ⟨read, c, after, _, text, segments.tokenization, solid, starts, ?_, ?_⟩
      · simp [Lexer.ofString]
      · exact tokenize_of_segments (by simp) segments.cut
  · rintro ⟨before, c, after, body, whole, tokenization, solid, starts, rfl, -⟩
    apply tokenize_eq_error_iff.mpr
    rw [scan_ofString_of_segments whole tokenization.segments ⟨solid, starts, rfl⟩]

end Propositional
