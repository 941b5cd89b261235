import Propositional.Token.Lexer

/-!
# What lexers read

`Lexer.Reads` says that a text starts with certain tokens, whatever their offsets, and what of the
text is left behind them. Such readings can be put one after the other: white space reads as nothing,
a parenthesis as itself, and a word as a keyword or a name if what follows does not prolong it. A text
that is not all tokens stops at a character with which none starts, and what is before it is tokens.
Nothing but white space is lost: the tokens have the characters of the text, in their order.
-/

namespace Propositional

/-- What a token says, apart from its place. -/
def Token.lexeme (t : Token) : Token.Kind × String := (t.kind, t.text)

theorem byteLength_cons (c : Char) (chars : List Char) :
    byteLength (c :: chars) = c.utf8Size + byteLength chars := by
  have shift : ∀ n, chars.foldl (fun length c => length + c.utf8Size) n = n + byteLength chars := by
    unfold byteLength
    induction chars with
    | nil => intro n; rfl
    | cons d later ih =>
      intro n
      rw [List.foldl_cons, List.foldl_cons, ih, ih (0 + d.utf8Size)]
      omega
  rw [byteLength, List.foldl_cons, shift]
  omega

namespace Lexer

variable {l l' : Lexer} {token : Token} {chars rest : List Char}

theorem scan_eq (l : Lexer) : l.scan =
    match l.next with
    | (.error e, _) => ⟨[], .error e⟩
    | (.ok token, after) =>
      if token.kind = .eof then ⟨[], .ok token⟩ else ⟨token :: after.scan.tokens, after.scan.ending⟩ := by
  rw [scan]
  split <;> rename_i read <;> simp only [read]
  split <;> rfl

theorem scan_of_next (read : l.next = (.ok token, l')) (more : token.kind ≠ .eof) :
    l.scan = ⟨token :: l'.scan.tokens, l'.scan.ending⟩ := by
  rw [scan_eq, read]
  exact if_neg more

theorem scan_of_eof (read : l.next = (.ok token, l')) (last : token.kind = .eof) :
    l.scan = ⟨[], .ok token⟩ := by
  rw [scan_eq, read]
  exact if_pos last

theorem scan_of_error {e : SyntaxError} (read : l.next = (.error e, l')) : l.scan = ⟨[], .error e⟩ := by
  rw [scan_eq, read]

/-! ### Readings of a part of a text -/

/-- Whoever reads the text meets tokens with these lexemes first and then reads the rest. -/
def Reads (chars : List Char) (lexemes : List (Token.Kind × String)) (rest : List Char) : Prop :=
  ∀ l : Lexer, l.rest = chars → ∃ (tokens : List Token) (l' : Lexer), l'.rest = rest ∧
    tokens.map Token.lexeme = lexemes ∧ l.scan = ⟨tokens ++ l'.scan.tokens, l'.scan.ending⟩

theorem Reads.append {xs ys : List (Token.Kind × String)} {middle : List Char} (first : Reads chars xs middle)
    (second : Reads middle ys rest) : Reads chars (xs ++ ys) rest := by
  intro l at_start
  obtain ⟨ts, m, at_middle, rfl, scanned⟩ := first l at_start
  obtain ⟨us, l', at_end, rfl, scanned'⟩ := second m at_middle
  refine ⟨ts ++ us, l', at_end, List.map_append, ?_⟩
  rw [scanned, scanned', List.append_assoc]

theorem Reads.blank {c : Char} (blank : Text.isBlank c = true) : Reads (c :: rest) [] rest := by
  intro l at_start
  refine ⟨[], l.advance [c] rest, rfl, rfl, ?_⟩
  have same : l.skipBlank = (l.advance [c] rest).skipBlank := by
    simp only [skipBlank, advance, at_start, List.dropWhile_cons_of_pos blank,
      List.takeWhile_cons_of_pos blank, byteLength_cons]
    simp only [byteLength, List.foldl_nil, Lexer.mk.injEq, true_and, and_true]
    omega
  have read : l.next = (l.advance [c] rest).next := by rw [next, same]; rfl
  rw [List.nil_append, scan_eq l, read, ← scan_eq]

theorem next_cons {c : Char} (at_start : l.rest = c :: rest) (solid : Text.isBlank c = false) :
    ∃ offset, l.next = ({ l with offset } : Lexer).readAt c rest := by
  have stays : l.skipBlank = { l with offset := l.skipBlank.offset } := by
    rw [skipBlank, at_start, List.dropWhile_cons_of_neg (by simp [solid])]
  refine ⟨l.skipBlank.offset, ?_⟩
  rw [next, stays]
  simp only [at_start]

theorem Reads.openParen (rest : List Char) : Reads ('(' :: rest) [(.openParen, "(")] rest := by
  intro l at_start
  obtain ⟨offset, read⟩ := next_cons at_start (by decide)
  rw [readAt, if_pos rfl] at read
  exact ⟨[_], _, rfl, rfl, scan_of_next read nofun⟩

theorem Reads.closeParen (rest : List Char) : Reads (')' :: rest) [(.closeParen, ")")] rest := by
  intro l at_start
  obtain ⟨offset, read⟩ := next_cons at_start (by decide)
  rw [readAt, if_neg (by decide), if_pos rfl] at read
  exact ⟨[_], _, rfl, rfl, scan_of_next read nofun⟩

/-! ### Words -/

/-- Whether the characters make one word: no white space or parenthesis in front, and no end before
the last one. -/
def isWord : List Char → Bool
  | [] => false
  | c :: later => !Text.isBlank c && c ≠ '(' && c ≠ ')' && startsWord c && later.all continuesWord

theorem isWord_cons_iff {c : Char} {later : List Char} : isWord (c :: later) = true ↔ Text.isBlank c = false ∧
    c ≠ '(' ∧ c ≠ ')' ∧ startsWord c = true ∧ ∀ d ∈ later, continuesWord d = true := by
  simp [isWord, and_assoc]

def EndsWord (rest : List Char) : Prop := ∀ c ∈ rest.head?, continuesWord c = false

theorem endsWord_nil : EndsWord [] := by simp [EndsWord]

theorem endsWord_blank (rest : List Char) : EndsWord (' ' :: rest) := by
  have stops : continuesWord ' ' = false := by decide +kernel
  simp [EndsWord, stops]

theorem continuesWord_openParen : continuesWord '(' = false := by decide +kernel

theorem continuesWord_closeParen : continuesWord ')' = false := by decide +kernel

theorem endsWord_closeParen (rest : List Char) : EndsWord (')' :: rest) := by
  simp [EndsWord, continuesWord_closeParen]

theorem span_word (continued : ∀ d ∈ chars, continuesWord d = true) (ends : EndsWord rest) :
    (chars ++ rest).takeWhile continuesWord = chars ∧ (chars ++ rest).dropWhile continuesWord = rest := by
  rw [List.takeWhile_append_of_pos continued, List.dropWhile_append_of_pos continued]
  cases rest with
  | nil => simp
  | cons c later =>
    have stops : continuesWord c = false := ends c rfl
    simp [stops]

theorem Reads.word (word : isWord chars = true) (ends : EndsWord rest) :
    Reads (chars ++ rest) [(.ofWord (String.ofList chars), String.ofList chars)] rest := by
  cases chars with
  | nil => cases word
  | cons c later =>
    obtain ⟨solid, notOpen, notClose, starts, continued⟩ := isWord_cons_iff.mp word
    obtain ⟨taken, dropped⟩ := span_word continued ends
    intro l at_start
    obtain ⟨offset, read⟩ := next_cons at_start solid
    rw [readAt, if_neg notOpen, if_neg notClose, if_pos starts, List.append_eq, taken, dropped] at read
    exact ⟨[_], _, rfl, rfl, scan_of_next read (Token.Kind.ofWord_ne_eof _)⟩

end Lexer

open Lexer

/-! ### Whole texts -/

theorem Lexer.Reads.tokenize {input : String} {lexemes : List (Token.Kind × String)}
    (reads : Reads input.toList lexemes []) : ∃ (tokens : List Token) (eof : Token),
      tokenize input = .ok (tokens ++ [eof]) ∧ tokens.map Token.lexeme = lexemes := by
  obtain ⟨tokens, l, at_end, said, scanned⟩ := reads (Lexer.ofString input) rfl
  have read : l.next = (.ok ⟨.eof, "", l.skipBlank.offset⟩, { l.skipBlank with done := true }) := by
    simp only [next, skipBlank, at_end, List.dropWhile_nil]
  refine ⟨tokens, ⟨.eof, "", l.skipBlank.offset⟩, ?_, said⟩
  rw [Propositional.tokenize, scanned, scan_of_eof read rfl]
  simp [Except.map]

/-! ### Where reading stops -/

theorem byteLength_append (xs ys : List Char) : byteLength (xs ++ ys) = byteLength xs + byteLength ys := by
  induction xs with
  | nil => simp [byteLength]
  | cons c later ih =>
    rw [List.cons_append, byteLength_cons, byteLength_cons, ih]
    omega

def startsToken (c : Char) : Bool := c = '(' || c = ')' || startsWord c

/-- The tokens of a text up to its end or its first error. -/
def tokensOf (input : String) : List Token := (Lexer.ofString input).scan.tokens

namespace Lexer

variable {l l' : Lexer} {token : Token} {e : SyntaxError} {c : Char} {blanks rest : List Char}

theorem skipBlank_append (l : Lexer) (blank : ∀ b ∈ blanks, Text.isBlank b = true) (rest : List Char)
    (solid : ∀ c ∈ rest.head?, Text.isBlank c = false) :
    ({ l with rest := blanks ++ rest } : Lexer).skipBlank = l.advance blanks rest := by
  have stops : rest.takeWhile Text.isBlank = [] ∧ rest.dropWhile Text.isBlank = rest := by
    cases rest with
    | nil => simp
    | cons c later => simp [solid c rfl]
  simp only [skipBlank, advance, List.takeWhile_append_of_pos blank, List.dropWhile_append_of_pos blank,
    stops, List.append_nil]

theorem exists_blanks (l : Lexer) : ∃ blanks, (∀ b ∈ blanks, Text.isBlank b = true) ∧
    l.rest = blanks ++ l.skipBlank.rest ∧ l.skipBlank = l.advance blanks l.skipBlank.rest ∧
    ∀ c ∈ l.skipBlank.rest.head?, Text.isBlank c = false := by
  refine ⟨l.rest.takeWhile Text.isBlank, List.all_eq_true.mp List.all_takeWhile,
    List.takeWhile_append_dropWhile.symm, rfl, fun c first => ?_⟩
  have head := List.head?_dropWhile_not Text.isBlank l.rest
  rw [show (l.rest.dropWhile Text.isBlank).head? = some c from first] at head
  simpa using head

/-- A token is the same if the text is cut off anywhere behind it. -/
theorem readAt_eq_ok (read : l.readAt c rest = (.ok token, l')) :
    ∃ word, rest = word ++ l'.rest ∧ l' = l.advance (c :: word) l'.rest ∧
      ∀ later, later <+: l'.rest → l.readAt c (word ++ later) = (.ok token, l.advance (c :: word) later) := by
  unfold readAt at read
  split at read
  · rename_i isOpen
    cases read
    exact ⟨[], rfl, rfl, fun later _ => by simp [readAt, isOpen]⟩
  · rename_i notOpen
    split at read
    · rename_i isClose
      cases read
      exact ⟨[], rfl, rfl, fun later _ => by simp [readAt, isClose]⟩
    · rename_i notClose
      split at read
      · rename_i starts
        cases read
        refine ⟨rest.takeWhile continuesWord, List.takeWhile_append_dropWhile.symm, rfl, ?_⟩
        rintro later ⟨cut, whole⟩
        have ends : EndsWord later := by
          intro d first
          obtain ⟨others, rfl⟩ := List.head?_eq_some_iff.mp first
          have head := List.head?_dropWhile_not continuesWord rest
          rw [show rest.dropWhile continuesWord = _ from whole.symm] at head
          simpa using head
        obtain ⟨taken, dropped⟩ := span_word (List.all_eq_true.mp (List.all_takeWhile (l := rest))) ends
        simp only [readAt, notOpen, notClose, starts, if_true, if_false, taken, dropped]
      · cases read

theorem next_eq_ok (read : l.next = (.ok token, l')) (more : token.kind ≠ .eof) :
    ∃ chars, l.rest = chars ++ l'.rest ∧ l' = l.advance chars l'.rest ∧
      ∀ later, later <+: l'.rest →
        ({ l with rest := chars ++ later } : Lexer).next = (.ok token, l.advance chars later) := by
  obtain ⟨blanks, blank, split, skipped, solid⟩ := l.exists_blanks
  unfold next at read
  dsimp only at read
  split at read
  · cases read
    exact absurd rfl more
  · rename_i c rest found
    obtain ⟨word, rfl, after, shorter⟩ := readAt_eq_ok read
    have place : ∀ later, l.skipBlank.advance (c :: word) later = l.advance (blanks ++ c :: word) later := by
      intro later
      rw [skipped]
      simp only [advance, byteLength_append, Nat.add_assoc]
    refine ⟨blanks ++ c :: word, ?_, after.trans (place _), fun later cut => ?_⟩
    · rw [split, found]
      simp
    · have skipped' := l.skipBlank_append blank (c :: (word ++ later))
        (fun d first => solid d (by rw [found]; exact first))
      rw [next, List.append_assoc, List.cons_append, skipped']
      have same : (l.advance blanks (c :: (word ++ later))).readAt c (word ++ later) =
          l.skipBlank.readAt c (word ++ later) := by rw [skipped]; rfl
      exact same.trans ((shorter later cut).trans (by rw [place]))

theorem next_eq_error (read : l.next = (.error e, l')) :
    ∃ c rest, l.skipBlank.rest = c :: rest ∧ startsToken c = false ∧
      e = .unexpectedChar c l.skipBlank.offset := by
  unfold next at read
  dsimp only at read
  split at read
  · cases read
  · rename_i c rest found
    unfold readAt at read
    split at read
    · cases read
    · split at read
      · cases read
      · split at read
        · cases read
        · cases read
          exact ⟨c, rest, found, by simp_all [startsToken], rfl⟩

/-- A lexer stops at a character with which no token starts, and everything before it is tokens. -/
theorem scan_eq_error (stopped : l.scan.ending = .error e) :
    ∃ before c after, l.rest = before ++ c :: after ∧ Text.isBlank c = false ∧ startsToken c = false ∧
      e = .unexpectedChar c (l.offset + byteLength before) ∧
      ∃ eof, ({ l with rest := before } : Lexer).scan = ⟨l.scan.tokens, .ok eof⟩ := by
  induction l using scan.induct with
  | case1 l e' after read =>
    rw [scan_of_error read] at stopped ⊢
    obtain rfl := Except.error.inj stopped
    obtain ⟨c, rest, found, starts, rfl⟩ := next_eq_error read
    obtain ⟨blanks, blank, split, skipped, solid⟩ := l.exists_blanks
    rw [found] at split solid skipped
    have ended : ({ l with rest := blanks } : Lexer).next =
        (.ok ⟨.eof, "", (l.advance blanks []).offset⟩, { l.advance blanks [] with done := true }) := by
      have skipped' := l.skipBlank_append blank [] (by simp)
      rw [List.append_nil] at skipped'
      rw [next, skipped']
      rfl
    exact ⟨blanks, c, rest, split, solid c rfl, starts, by rw [skipped]; rfl, _, scan_of_eof ended rfl⟩
  | case2 l token after read last =>
    rw [scan_of_eof read last] at stopped
    simp at stopped
  | case3 l token l' read more ih =>
    rw [scan_of_next read more] at stopped ⊢
    obtain ⟨before, c, after, split, solid, starts, rfl, eof, scanned⟩ := ih stopped
    obtain ⟨chars, whole, moved, shorter⟩ := next_eq_ok read more
    rw [split] at whole shorter
    refine ⟨chars ++ before, c, after, by rw [whole, List.append_assoc], solid, starts, ?_, eof, ?_⟩
    · rw [moved]
      simp only [advance, byteLength_append, Nat.add_assoc]
    · rw [scan_of_next (shorter before (List.prefix_append _ _)) more]
      have same : l.advance chars before = { l' with rest := before } := by rw [moved]; rfl
      rw [same, scanned]

end Lexer

theorem tokenize_eq_ok_iff {input : String} {tokens : List Token} :
    tokenize input = .ok tokens ↔ ∃ eof, (Lexer.ofString input).scan.ending = .ok eof ∧
      tokens = tokensOf input ++ [eof] := by
  unfold tokenize tokensOf
  cases ended : (Lexer.ofString input).scan.ending with
  | error e => simp [ended, Except.map]
  | ok eof => simp [ended, Except.map, eq_comm]

theorem tokenize_eq_error_iff {input : String} {e : SyntaxError} :
    tokenize input = .error e ↔ (Lexer.ofString input).scan.ending = .error e := by
  unfold tokenize
  cases ended : (Lexer.ofString input).scan.ending with
  | error e => simp [ended, Except.map]
  | ok eof => simp [ended, Except.map]

/-- Tokens are missing only because of a character that starts none, at the end of what are tokens. -/
theorem tokenize_eq_error {input : String} {e : SyntaxError} (stopped : tokenize input = .error e) :
    ∃ before c after eof, input.toList = before ++ c :: after ∧ Text.isBlank c = false ∧
      startsToken c = false ∧ e = .unexpectedChar c (byteLength before) ∧
      tokenize (String.ofList before) = .ok (tokensOf input ++ [eof]) := by
  obtain ⟨before, c, after, split, solid, starts, rfl, eof, scanned⟩ :=
    scan_eq_error (tokenize_eq_error_iff.mp stopped)
  have same : Lexer.ofString (String.ofList before) = { Lexer.ofString input with rest := before } := by
    simp [Lexer.ofString, String.toList_ofList]
  refine ⟨before, c, after, eof, split, solid, starts, ?_, tokenize_eq_ok_iff.mpr ⟨eof, ?_, ?_⟩⟩
  · simp [Lexer.ofString]
  · rw [same, scanned]
  · rw [tokensOf, tokensOf, same, scanned]

/-! ### How tokens are spelled -/

/-- Whether a token is a parenthesis or a word, and of the kind that its text makes it. -/
def Token.Spelled (t : Token) : Prop :=
  t.lexeme = (.openParen, "(") ∨ t.lexeme = (.closeParen, ")") ∨
    isWord t.text.toList = true ∧ t.kind = .ofWord t.text

/-- The text is these words in a row, each with any white space in front of it. -/
inductive Spaced : List Char → List String → Prop where
  | nil : Spaced [] []
  | cons {blanks rest : List Char} {word : String} {words : List String}
      (blank : ∀ b ∈ blanks, Text.isBlank b = true) (later : Spaced rest words) :
      Spaced (blanks ++ (word.toList ++ rest)) (word :: words)

theorem Token.Spelled.kind_ne_eof {t : Token} (spelled : t.Spelled) : t.kind ≠ .eof := by
  rcases spelled with lexeme | lexeme | ⟨-, kind⟩
  · simp [(Prod.mk.inj lexeme).1]
  · simp [(Prod.mk.inj lexeme).1]
  · rw [kind]
    exact Kind.ofWord_ne_eof _

namespace Lexer

variable {l l' : Lexer} {token eof : Token} {c : Char} {rest : List Char}

theorem readAt_spelled (solid : Text.isBlank c = false) (read : l.readAt c rest = (.ok token, l')) :
    token.Spelled ∧ c :: rest = token.text.toList ++ l'.rest := by
  unfold readAt at read
  split at read
  · rename_i isOpen
    cases read
    exact ⟨Or.inl rfl, by simp [advance, isOpen]⟩
  · rename_i notOpen
    split at read
    · rename_i isClose
      cases read
      exact ⟨Or.inr (Or.inl rfl), by simp [advance, isClose]⟩
    · rename_i notClose
      split at read
      · rename_i starts
        cases read
        have word : isWord (c :: rest.takeWhile continuesWord) = true :=
          isWord_cons_iff.mpr ⟨solid, notOpen, notClose, starts, List.all_eq_true.mp List.all_takeWhile⟩
        refine ⟨Or.inr (Or.inr ⟨by simpa using word, rfl⟩), ?_⟩
        simp [advance, List.takeWhile_append_dropWhile]
      · cases read

theorem next_spelled (read : l.next = (.ok token, l')) :
    (∃ blanks, (∀ b ∈ blanks, Text.isBlank b = true) ∧ l.rest = blanks ++ (token.text.toList ++ l'.rest)) ∧
      (token.Spelled ∨ token.lexeme = (.eof, "") ∧ l'.rest = []) := by
  obtain ⟨blanks, blank, split, -, solid⟩ := l.exists_blanks
  unfold next at read
  dsimp only at read
  split at read
  · rename_i found
    cases read
    exact ⟨⟨blanks, blank, by simpa using split⟩, Or.inr ⟨rfl, found⟩⟩
  · rename_i c rest found
    obtain ⟨spelled, text⟩ := readAt_spelled (solid c (by rw [found]; rfl)) read
    exact ⟨⟨blanks, blank, by rw [split, found, text]⟩, Or.inl spelled⟩

theorem scan_spelled (ended : l.scan.ending = .ok eof) :
    Spaced l.rest ((l.scan.tokens ++ [eof]).map Token.text) ∧ (∀ token ∈ l.scan.tokens, token.Spelled) ∧
      eof.lexeme = (.eof, "") := by
  induction l using scan.induct with
  | case1 l e after read =>
    rw [scan_of_error read] at ended
    cases ended
  | case2 l token after read last =>
    rw [scan_of_eof read last] at ended ⊢
    obtain rfl := Except.ok.inj ended
    obtain ⟨⟨blanks, blank, split⟩, spelled | ⟨lexeme, finished⟩⟩ := next_spelled read
    · exact absurd last spelled.kind_ne_eof
    · refine ⟨?_, by simp, lexeme⟩
      rw [split, finished]
      exact Spaced.cons blank .nil
  | case3 l token after read more ih =>
    rw [scan_of_next read more] at ended ⊢
    obtain ⟨spaced, others, last⟩ := ih ended
    obtain ⟨⟨blanks, blank, split⟩, spelled | ⟨lexeme, -⟩⟩ := next_spelled read
    · refine ⟨?_, List.forall_mem_cons.mpr ⟨spelled, others⟩, last⟩
      rw [split]
      exact Spaced.cons blank spaced
    · exact absurd (congrArg Prod.fst lexeme) more

end Lexer

/-- The tokens of a text are all of it but white space. -/
theorem spaced_of_tokenize {input : String} {tokens : List Token} (tokenized : tokenize input = .ok tokens) :
    Spaced input.toList (tokens.map Token.text) := by
  obtain ⟨eof, ended, rfl⟩ := tokenize_eq_ok_iff.mp tokenized
  exact (scan_spelled ended).1

theorem spelled_of_tokenize {input : String} {tokens : List Token} {eof : Token}
    (tokenized : tokenize input = .ok (tokens ++ [eof])) :
    (∀ token ∈ tokens, token.Spelled) ∧ eof.lexeme = (.eof, "") := by
  obtain ⟨last, ended, whole⟩ := tokenize_eq_ok_iff.mp tokenized
  obtain ⟨rfl, same⟩ := List.append_inj' whole rfl
  rw [List.singleton_inj.mp same]
  exact (scan_spelled ended).2

theorem kind_of_tokenize {input : String} {tokens : List Token} {eof : Token}
    (tokenized : tokenize input = .ok (tokens ++ [eof])) : eof.kind = .eof :=
  congrArg Prod.fst (spelled_of_tokenize tokenized).2

/-- Whether a text reads as one name, all of it. -/
def IsName (name : String) : Prop :=
  ∃ token eof, tokenize name = .ok [token, eof] ∧ token.kind = .ident ∧ token.text = name

theorem Token.Spelled.word_of_ident {t : Token} (spelled : t.Spelled) (isIdent : t.kind = .ident) :
    isWord t.text.toList = true ∧ Token.Kind.ofWord t.text = .ident := by
  rcases spelled with lexeme | lexeme | ⟨word, kind⟩
  · cases isIdent.symm.trans (congrArg Prod.fst lexeme)
  · cases isIdent.symm.trans (congrArg Prod.fst lexeme)
  · exact ⟨word, kind.symm.trans isIdent⟩

theorem isName_iff {name : String} :
    IsName name ↔ isWord name.toList = true ∧ Token.Kind.ofWord name = .ident := by
  constructor
  · rintro ⟨token, eof, tokenized, isIdent, rfl⟩
    obtain ⟨spelled, -⟩ := spelled_of_tokenize (show tokenize token.text = .ok ([token] ++ [eof]) from tokenized)
    exact (spelled token (by simp)).word_of_ident isIdent
  · rintro ⟨word, kind⟩
    have reads := Reads.word word endsWord_nil
    rw [List.append_nil, String.ofList_toList, kind] at reads
    obtain ⟨tokens, eof, tokenized, said⟩ := reads.tokenize
    obtain ⟨token, none, rfl, lexeme, said⟩ := List.map_eq_cons_iff.mp said
    obtain rfl := List.map_eq_nil_iff.mp said
    obtain ⟨isIdent, text⟩ := Prod.mk.inj lexeme
    exact ⟨token, eof, tokenized, isIdent, text⟩

end Propositional
