import Propositional.SyntaxError
import Propositional.Text.Alphabetic
import Propositional.Text.Blank
import Propositional.Text.Numeric
import Propositional.Token

/-!
# Reading tokens from a text

A lexer stands somewhere in a text and reads one token at a time, always the longest one: white
space is skipped, a parenthesis stands alone, and a word runs on for as long as it can. It can be
asked for the next token, which after the end is the end mark for ever, or for the next item of a
finite sequence, which closes with the end mark or with the first error.

`Lexer.scan` is the whole sequence at once, and `tokenize` is the same with an error in place of
an incomplete sequence.
-/

namespace Propositional

def startsWord (c : Char) : Bool := Text.isAlphabetic c || c = '_'

def continuesWord (c : Char) : Bool := Text.isAlphabetic c || Text.isNumeric c || c = '_'

/-- The length of a text in UTF-8 bytes. -/
def byteLength (chars : List Char) : Nat := chars.foldl (fun length c => length + c.utf8Size) 0

structure Lexer where
  rest : List Char
  offset : Nat := 0
  done : Bool := false
  deriving DecidableEq, Repr

namespace Lexer

def ofString (input : String) : Lexer := { rest := input.toList }

def skipBlank (l : Lexer) : Lexer :=
  { l with
    rest := l.rest.dropWhile Text.isBlank
    offset := l.offset + byteLength (l.rest.takeWhile Text.isBlank) }

def advance (l : Lexer) (read rest : List Char) : Lexer :=
  { l with rest := rest, offset := l.offset + byteLength read }

/-- The token at a character that is not white space, and the lexer behind it. A character that
starts no token is an error and is passed over. -/
def readAt (l : Lexer) (c : Char) (rest : List Char) : Except SyntaxError Token × Lexer :=
  if c = '(' then (.ok ⟨.openParen, "(", l.offset⟩, l.advance [c] rest)
  else if c = ')' then (.ok ⟨.closeParen, ")", l.offset⟩, l.advance [c] rest)
  else if startsWord c then
    let word := c :: rest.takeWhile continuesWord
    let text := String.ofList word
    (.ok ⟨.ofWord text, text, l.offset⟩, l.advance word (rest.dropWhile continuesWord))
  else (.error (.unexpectedChar c l.offset), l.advance [c] rest)

/-- Reads the next token. After the end of the text it goes on answering the end mark. -/
def next (l : Lexer) : Except SyntaxError Token × Lexer :=
  let l := l.skipBlank
  match l.rest with
  | [] => (.ok ⟨.eof, "", l.offset⟩, { l with done := true })
  | c :: rest => l.readAt c rest

/-- Reads the next item of the token sequence, which is over after the end mark or an error. -/
def next? (l : Lexer) : Option (Except SyntaxError Token) × Lexer :=
  if l.done then (none, l)
  else
    match l.next with
    | (.ok token, l) => (some (.ok token), l)
    | (.error e, l) => (some (.error e), { l with done := true })

theorem length_readAt_le (l : Lexer) (c : Char) (rest : List Char) :
    (l.readAt c rest).2.rest.length ≤ rest.length := by
  unfold readAt advance
  have := (List.dropWhile_sublist continuesWord (l := rest)).length_le
  repeat' split
  all_goals simp_all

/-- Every token but the end mark makes the text shorter. -/
theorem length_next_lt {l l' : Lexer} {token : Token} (read : l.next = (.ok token, l'))
    (more : token.kind ≠ .eof) : l'.rest.length < l.rest.length := by
  have skipped := (List.dropWhile_sublist Text.isBlank (l := l.rest)).length_le
  unfold next at read
  dsimp only [skipBlank] at read
  split at read
  · cases read; simp at more
  · rename_i c rest found
    have shorter := length_readAt_le l.skipBlank c rest
    simp only [skipBlank] at shorter
    rw [read] at shorter
    simp only [found, List.length_cons] at skipped
    simp only at shorter
    omega

end Lexer

structure Scan where
  tokens : List Token
  ending : Except SyntaxError Token

def Lexer.scan (l : Lexer) : Scan :=
  match _read : l.next with
  | (.error e, _) => ⟨[], .error e⟩
  | (.ok token, l') =>
    if _more : token.kind = .eof then ⟨[], .ok token⟩
    else
      let later := l'.scan
      ⟨token :: later.tokens, later.ending⟩
termination_by l.rest.length
decreasing_by exact length_next_lt _read _more

/-- The tokens of a text, the end mark included. -/
def tokenize (input : String) : Except SyntaxError (List Token) :=
  let scan := (Lexer.ofString input).scan
  scan.ending.map fun eof => scan.tokens ++ [eof]

end Propositional
