import FluentBuilder.Source.Text

/-!
Edits of a source: ranges of bytes and what comes in their place. They are made from the end of
the text to its start, so that an edit moves no range that is still to be edited, as long as the
ranges do not overlap.
-/

namespace FluentBuilder

/-- A range of bytes and what comes in its place. -/
structure Edit where
  span : Span
  replacement : List UInt8 := []
deriving Repr, DecidableEq

namespace Edit

def apply (bytes : List UInt8) (edit : Edit) : List UInt8 :=
  bytes.take edit.span.start ++ edit.replacement ++ bytes.drop edit.span.stop

/-- Whether an edit is made before another, or is in no order with it: the one with the later
range goes first. -/
def goesFirst (a b : Edit) : Bool :=
  decide (b.span.start < a.span.start) ||
    (a.span.start == b.span.start && decide (b.span.stop ≤ a.span.stop))

/-- The text after all edits. Of two with the same range the earlier in the list is made first. -/
def applyAll (edits : List Edit) (bytes : List UInt8) : List UInt8 :=
  (edits.mergeSort goesFirst).foldl apply bytes

end Edit

end FluentBuilder
