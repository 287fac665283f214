import CodeNotes.Note.Basic

/-!
# Spans and positions

A span is a stretch of a source text, given by the offsets of its first character and of the first
character after it.  A position counts the line feeds before an offset and the bytes since the last
of them.  `Span.lines` gives the lines that a span touches: a span that ends right after a line feed
does not touch the line that the line feed opens.
-/

namespace CodeNotes

/-- A stretch of a source text. -/
structure Span where
  start : Nat
  stop : Nat
deriving DecidableEq, Repr

/-- A place in a source text: line feeds before it, and bytes since the last one. -/
structure Position where
  row : Nat
  column : Nat
deriving DecidableEq, Repr

namespace Position

/-- The characters since the last line feed. -/
def sinceBreak (before : List Char) : List Char :=
  before.reverse.takeWhile (· != '\n')

/-- The place right after a text. -/
def after (before : List Char) : Position :=
  ⟨before.count '\n', Text.byteLength (sinceBreak before)⟩

end Position

namespace Span

/-- The text of a span. -/
def text (s : Span) (source : List Char) : List Char :=
  (source.drop s.start).take (s.stop - s.start)

/-- The place where a span starts. -/
def startPosition (s : Span) (source : List Char) : Position :=
  Position.after (source.take s.start)

/-- The place where a span stops. -/
def stopPosition (s : Span) (source : List Char) : Position :=
  Position.after (source.take s.stop)

/-- The lines a span touches. -/
def lines (s : Span) (source : List Char) : LineRange :=
  let start := s.startPosition source
  let stop := s.stopPosition source
  let last := if stop.column = 0 ∧ start.row < stop.row then stop.row else stop.row + 1
  ⟨start.row + 1, last⟩

end Span

end CodeNotes
