/-!
# Searching text

Occurrences of one text in another, and the text that is left when they are removed from left to
right.
-/

namespace ReactiveScript.Text

/-- Whether the needle occurs somewhere; the empty needle does everywhere. -/
def occursIn (needle : List Char) : List Char → Bool
  | [] => needle.isEmpty
  | c :: cs => needle.isPrefixOf (c :: cs) || occursIn needle cs

/-- Drops `skip` characters and then removes the occurrences of the needle. -/
def removeFrom (needle : List Char) : Nat → List Char → List Char
  | _, [] => []
  | skip + 1, _ :: cs => removeFrom needle skip cs
  | 0, c :: cs =>
    if needle.isPrefixOf (c :: cs) then removeFrom needle (needle.length - 1) cs
    else c :: removeFrom needle 0 cs

/-- The text without the occurrences of the needle; an empty needle removes nothing. -/
def removeAll (needle cs : List Char) : List Char :=
  if needle.isEmpty then cs else removeFrom needle 0 cs

end ReactiveScript.Text
