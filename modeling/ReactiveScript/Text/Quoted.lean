import ReactiveScript.Text.Combining
import ReactiveScript.Text.Invisible

/-!
# Quoted text

A text in quotes, in which every character can be told apart: quotes, backslashes and the common
control characters are written as two characters, and all others that are invisible or combine with
the one before them are written by their codes.
-/

namespace ReactiveScript.Text

/-- What stands for a character between quotes. -/
def quotedChar (c : Char) : List Char :=
  if c = '"' then ['\\', '"']
  else if c = '\\' then ['\\', '\\']
  else if c = '\n' then ['\\', 'n']
  else if c = '\r' then ['\\', 'r']
  else if c = '\t' then ['\\', 't']
  else if c = '\x00' then ['\\', '0']
  else if isInvisible c || isCombining c then
    ['\\', 'u', '\x7b'] ++ Nat.toDigits 16 c.toNat ++ ['\x7d']
  else [c]

def quoted (s : String) : String := String.ofList ('"' :: s.toList.flatMap quotedChar ++ ['"'])

end ReactiveScript.Text
