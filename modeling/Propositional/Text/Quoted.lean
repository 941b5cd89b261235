import Propositional.Text.Combining
import Propositional.Text.Ignorable
import Propositional.Text.Invisible

/-!
# Quoted text

How a character or a string is shown between quotes in a message. Everything that would be lost
or misread on a terminal is written as an escape: the backslash, the enclosing quote, the usual
control characters by their letters, and any other character that is invisible, may be ignored or
attaches to its neighbour by its code point in hexadecimal.
-/

namespace Propositional.Text

/-- A code point in lower-case hexadecimal without padding, between braces. -/
def codePointEscape (c : Char) : String :=
  "\\u\x7b" ++ String.ofList (Nat.toDigits 16 c.toNat) ++ "\x7d"

/-- One character as it stands between two `quote`s. -/
def escape (quote c : Char) : String :=
  if c = '\x00' then "\\0"
  else if c = '\t' then "\\t"
  else if c = '\r' then "\\r"
  else if c = '\n' then "\\n"
  else if c = '\\' then "\\\\"
  else if c = quote then "\\" ++ c.toString
  else if isCombining c || isIgnorable c || isInvisible c then codePointEscape c
  else c.toString

def quotedChar (c : Char) : String :=
  "\x27" ++ escape '\x27' c ++ "\x27"

def quoted (s : String) : String :=
  "\x22" ++ s.toList.foldl (fun text c => text ++ escape '\x22' c) "" ++ "\x22"

end Propositional.Text
