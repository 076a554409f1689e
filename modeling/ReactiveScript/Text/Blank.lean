/-!
# Blank characters

The characters of the Unicode property White_Space, and the trimming of text at both ends.
-/

namespace ReactiveScript.Text

/-- The characters with the Unicode property White_Space. -/
def isBlank (c : Char) : Bool :=
  let n := c.toNat
  (9 ≤ n && n ≤ 13) || n == 32 || n == 0x85 || n == 0xA0 || n == 0x1680 ||
    (0x2000 ≤ n && n ≤ 0x200A) || n == 0x2028 || n == 0x2029 || n == 0x202F ||
    n == 0x205F || n == 0x3000

/-- The characters between the first and the last that is not blank. -/
def trim (cs : List Char) : List Char :=
  ((cs.dropWhile isBlank).reverse.dropWhile isBlank).reverse

example : " \t\r\n".toList.all isBlank = true := by decide

example : trim " a b\n".toList = "a b".toList := by decide

end ReactiveScript.Text
