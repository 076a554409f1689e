import ReactiveScript.Source.Basic

/-!
# Lines and columns

Lines count from one and end before their newline. Columns count characters from zero. The line of
an offset is found by bisecting the line starts, which ascend.
-/

namespace ReactiveScript.Source

/-- The offsets just after each newline, for characters that begin at `offset`. -/
def startsAfterNewlines (offset : Nat) : List Char → List Nat
  | [] => []
  | c :: cs =>
    let next := offset + c.utf8Size
    if c = '\n' then next :: startsAfterNewlines next cs else startsAfterNewlines next cs

/-- The offset of the first character of each line. -/
def lineStarts (cs : List Char) : List Nat := 0 :: startsAfterNewlines 0 cs

/-- Where a number stands among ascending ones, from `lo` up to `hi`, or else the place at which it
would have to be put among them. -/
def bisect (xs : Array Nat) (x lo hi : Nat) (bounded : hi ≤ xs.size) : Except Nat Nat :=
  if h : lo < hi then
    let middle := lo + (hi - lo) / 2
    have inside : middle < xs.size := by omega
    if xs[middle] < x then bisect xs x (middle + 1) hi bounded
    else if x < xs[middle] then bisect xs x lo middle (by omega)
    else .ok middle
  else .error lo
termination_by hi - lo

/-- The line that holds a byte offset: the one that begins there, or else the one before the place
of the offset among the line starts. -/
def lineOfOffset (cs : List Char) (offset : Nat) : Nat :=
  let starts := (lineStarts cs).toArray
  match bisect starts offset 0 starts.size (Nat.le_refl _) with
  | .ok found => found + 1
  | .error place => place - 1 + 1

/-- The offset at which a line begins. -/
def lineStart? (cs : List Char) (line : Nat) : Option Nat :=
  if line = 0 then none else (lineStarts cs)[line - 1]?

def lineCount (cs : List Char) : Nat := (lineStarts cs).length

/-- The offset of the newline that ends the line of `offset`, or the end of the text. -/
def lineEnd (cs : List Char) (offset : Nat) : Nat :=
  match lineStart? cs (lineOfOffset cs offset + 1) with
  | some next => next - 1
  | none => Text.byteLength cs

/-- The number of characters between the start of the line and the offset; zero inside a
character. -/
def columnOfOffset (cs : List Char) (offset : Nat) : Nat :=
  let start := (lineStart? cs (lineOfOffset cs offset)).getD 0
  match Text.slice? cs start (min offset (Text.byteLength cs)) with
  | some front => front.length
  | none => 0

end ReactiveScript.Source
