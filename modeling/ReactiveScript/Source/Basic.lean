import ReactiveScript.Text.Bytes
import ReactiveScript.Text.Numeral

/-!
# Source text and segments

A segment is a window of bytes into the text of a script: the place of one operator. Segments
without a text belong to what the runtime makes by itself; they are *unknown*.
-/

namespace ReactiveScript

/-- A range of byte offsets, the end excluded. -/
structure Span where
  start : Nat
  stop : Nat
deriving DecidableEq, Repr, Inhabited

namespace Span

/-- The span of what has no place in a text. -/
def none : Span := ⟨0, 0⟩

/-- Both offsets with two dots between them. -/
def text (s : Span) : String := Text.ofNat s.start ++ ".." ++ Text.ofNat s.stop

end Span

/-- A whole script, with the file it came from if there is one. -/
structure SourceText where
  file : Option String
  text : String
deriving DecidableEq, Repr, Inhabited

/-- A window into a source text. -/
structure Segment where
  source : Option SourceText
  span : Span
deriving DecidableEq, Repr, Inhabited

namespace SourceText

def chars (s : SourceText) : List Char := s.text.toList

def byteLength (s : SourceText) : Nat := Text.byteLength s.chars

end SourceText

namespace Segment

def unknown : Segment := ⟨none, Span.none⟩

def file (s : Segment) : Option String := s.source.bind (·.file)

/-- Whether the segment ends within the text it points into. -/
def isKnown (s : Segment) : Bool := s.source.any fun source => s.span.stop ≤ source.byteLength

/-- The characters of the segment; none if the span does not fit the text. -/
def chars (s : Segment) : List Char :=
  (s.source.bind fun source => Text.slice? source.chars s.span.start s.span.stop).getD []

/-- The exact text of the segment. -/
def text (s : Segment) : String := String.ofList s.chars

/-- The file and the span, or what stands for them. -/
def describe (s : Segment) : String :=
  match s.file with
  | some file => file ++ "@" ++ s.span.text
  | none => if s.source.isSome then "<script>@" ++ s.span.text else "<unknown location>"

@[simp] theorem isKnown_unknown : unknown.isKnown = false := rfl

end Segment
end ReactiveScript
