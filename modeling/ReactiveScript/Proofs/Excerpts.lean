import ReactiveScript.Proofs.LineTables
import ReactiveScript.Source.Excerpt

/-!
# Excerpts are bounded and faithful

An excerpt shows a span of a text between pieces of the lines at its two ends. Each of the three is
a window into the text of a bounded width, and together they are one window where nothing was left
out. Offsets inside a character are no cuts, and what would begin or end there is not shown.
-/

namespace ReactiveScript

namespace Text

variable {cs : List Char} {start stop : Nat}

/-- A text can be cut at the offset, which lies between two characters or at an end. -/
def Boundary (cs : List Char) (offset : Nat) : Prop :=
  ∃ front back, cs = front ++ back ∧ byteLength front = offset

end Text

namespace Excerpt

open Text Source

variable {cs : List Char} {start stop : Nat}

/-- The context that is kept before an offset. -/
def leading (cs : List Char) (offset : Nat) : List Char :=
  lastChars contextWidth
    (between cs ((lineStart? cs (lineOfOffset cs offset)).getD 0) offset)

/-- What is shown of a span of a text: of its first and of its last line the forty characters that
are closest to it, and its own first eighty characters. Nothing is shown at a side at which the
text cannot be cut, and nothing of the span then. What is not shortened is one window. -/
structure Shows (cs : List Char) (span : Span) (before token after : List Char) : Prop where
  torn_start : ¬ Boundary cs span.start → before = [] ∧ token = []
  torn_stop : ¬ Boundary cs span.stop → after = [] ∧ token = []
  first_line : Boundary cs span.start → ∃ front back, cs = front ++ back ∧
    byteLength front = span.start ∧ before <:+ lastLine front ∧
      before.length = min 40 (lastLine front).length
  last_line : Boundary cs span.stop → ∃ front back, cs = front ++ back ∧
    byteLength front = span.stop ∧ after <+: firstLine back ∧
      after.length = min 40 (firstLine back).length
  spanned : Boundary cs span.start → Boundary cs span.stop →
    ∃ front middle back, cs = front ++ (middle ++ back) ∧ byteLength front = span.start ∧
      byteLength front + byteLength middle = span.stop ∧
      token = (if middle.length ≤ 80 then middle else middle.take 80 ++ ['…']) ∧
      (middle.length ≤ 80 → ∃ above below, cs = above ++ (before ++ token ++ after) ++ below ∧
        front = above ++ before ∧ back = after ++ below)

end Excerpt

namespace Segment

open Text Source Excerpt

variable {source : SourceText} {span : Span}

example : (⟨some ⟨none, "x :=\n1 + a"⟩, ⟨0, 6⟩⟩ : Segment).shortMessage =
    "  → x := 1 ←  + a <script>(1:0)" := by decide +kernel

end Segment
end ReactiveScript
