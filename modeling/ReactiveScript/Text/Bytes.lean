/-!
# Byte offsets into text

Offsets count the bytes of UTF-8. A cut that would fall inside a character does not exist, so that
the functions that take an offset answer with an `Option`.
-/

namespace ReactiveScript.Text

/-- The number of bytes of a character sequence. -/
def byteLength : List Char → Nat
  | [] => 0
  | c :: cs => c.utf8Size + byteLength cs

/-- Cuts after exactly `n` bytes. -/
def splitBytes? : Nat → List Char → Option (List Char × List Char)
  | 0, cs => some ([], cs)
  | _ + 1, [] => none
  | n + 1, c :: cs =>
    if c.utf8Size ≤ n + 1 then
      (splitBytes? (n + 1 - c.utf8Size) cs).map fun (front, back) => (c :: front, back)
    else none
termination_by _ cs => cs.length

/-- The characters between two byte offsets, if both are character boundaries in this order. -/
def slice? (cs : List Char) (start stop : Nat) : Option (List Char) := do
  guard (start ≤ stop)
  let (_, rest) ← splitBytes? start cs
  let (middle, _) ← splitBytes? (stop - start) rest
  pure middle

end ReactiveScript.Text
