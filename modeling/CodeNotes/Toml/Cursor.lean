import CodeNotes.Source.Span

/-!
# Reading positions

A cursor is what is left of a text, together with the offset of its first character.
-/

namespace CodeNotes.Toml

/-- What is left of a text. -/
structure Cursor where
  offset : Nat
  rest : List Char
deriving DecidableEq, Repr

namespace Cursor

/-- The next character. -/
def peek? (c : Cursor) : Option Char :=
  c.rest.head?

/-- Passes over a number of characters. -/
def advance (c : Cursor) (n : Nat) : Cursor :=
  ⟨c.offset + n, c.rest.drop n⟩

/-- Passes over a character if it is the next one. -/
def eat? (c : Cursor) (x : Char) : Option Cursor :=
  match c.rest with
  | y :: rest => if x == y then some ⟨c.offset + 1, rest⟩ else none
  | [] => none

/-- Passes over a text if it stands next. -/
def eatAll? (c : Cursor) : List Char → Option Cursor
  | [] => some c
  | x :: xs => (c.eat? x).bind fun c => c.eatAll? xs

/-- Splits off the characters that satisfy a test. -/
def span (c : Cursor) (p : Char → Bool) : List Char × Cursor :=
  let taken := c.rest.takeWhile p
  (taken, c.advance taken.length)

/-- Passes over the characters that satisfy a test. -/
def skip (c : Cursor) (p : Char → Bool) : Cursor :=
  (c.span p).2

/-- Whether nothing is left. -/
def atEnd (c : Cursor) : Bool :=
  c.rest.isEmpty

end Cursor

/-! ### White space and comments -/

/-- A space or a tab. -/
def isGap (c : Char) : Bool :=
  c == ' ' || c == '\t'

/-- A character that may stand in comments: no control character but the tab. -/
def isPlain (c : Char) : Bool :=
  c == '\t' || (' ' ≤ c && c != '\x7f')

/-- Passes over spaces and tabs. -/
def Cursor.skipGap (c : Cursor) : Cursor :=
  c.skip isGap

/-- Passes over a line end. -/
def Cursor.eatBreak? (c : Cursor) : Option Cursor :=
  match c.rest with
  | '\n' :: rest => some ⟨c.offset + 1, rest⟩
  | '\r' :: '\n' :: rest => some ⟨c.offset + 2, rest⟩
  | _ => none

/-- Passes over a comment, if there is one, up to the line end. -/
def Cursor.skipComment (c : Cursor) : Cursor :=
  match c.eat? '#' with
  | some c => c.skip isPlain
  | none => c

/-- Passes over white space, a comment and the line end, or the end of the text. -/
def Cursor.endLine? (c : Cursor) : Option Cursor :=
  let c := c.skipGap.skipComment
  if c.atEnd then some c else c.eatBreak?

/-- Passes over white space, comments and line ends.  Each round passes over a line end, so the fuel
bounds the lines. -/
def Cursor.skipLines (fuel : Nat) (c : Cursor) : Cursor :=
  let c := c.skipGap.skipComment
  match fuel, c.eatBreak? with
  | fuel + 1, some next => Cursor.skipLines fuel next
  | _, _ => c

/-- Passes over all white space, comments and line ends. -/
def Cursor.skipAll (c : Cursor) : Cursor :=
  c.skipLines c.rest.length

end CodeNotes.Toml
