import CodeNotes.Source.Language
import CodeNotes.Source.Span
import CodeNotes.Text.Space

/-!
# White space and comments

What may stand between the tokens of each language.  `Trivia.leading` passes over everything of this
kind at the start of a text; a text made of nothing else is a program in every language.
-/

namespace CodeNotes

/-- A node of a syntax tree without children. -/
structure Leaf where
  kind : String
  span : Span
deriving DecidableEq, Repr

namespace Trivia

/-! ### Comments of single languages

Each function gives the length of what it recognises at the start of a text. -/

/-- The length of the characters before one that satisfies `stop`. -/
def lengthUntil (stop : Char → Bool) (cs : List Char) : Nat :=
  (cs.takeWhile (!stop ·)).length

/-- The length up to and including the first `*/`, from inside a block comment.  A NUL is no part of
a comment. -/
def flatBlockLength : List Char → Option Nat
  | [] => none
  | '*' :: '/' :: _ => some 2
  | c :: cs => if c == '\x00' then none else (flatBlockLength cs).map (· + 1)

/-- The length up to and including the `*/` that closes `depth` open block comments. -/
def nestedBlockLength : Nat → List Char → Option Nat
  | _, [] => none
  | depth, '/' :: '*' :: cs => (nestedBlockLength (depth + 1) cs).map (· + 2)
  | depth, '*' :: '/' :: cs =>
    match depth with
    | 0 | 1 => some 2
    | d + 1 => (nestedBlockLength d cs).map (· + 2)
  | depth, _ :: cs => (nestedBlockLength depth cs).map (· + 1)

/-- Ends a line comment of JavaScript and TypeScript. -/
def endsScriptLine (c : Char) : Bool :=
  c == '\x00' || c == '\r' || c == '\n' || c == '\u2028' || c == '\u2029'

/-- A comment of JavaScript and TypeScript. -/
def scriptComment? : List Char → Option (String × Nat)
  | '/' :: '/' :: cs => some ("comment", 2 + lengthUntil endsScriptLine cs)
  | '/' :: '*' :: cs => (flatBlockLength cs).map fun n => ("comment", 2 + n)
  | _ => none

/-- Ends a line comment that is cut off before the line feed. -/
def endsLine (c : Char) : Bool :=
  c == '\x00' || c == '\n'

/-- The length of a line together with its line feed, if it has one. -/
def wholeLineLength (cs : List Char) : Nat :=
  let n := lengthUntil (· == '\n') cs
  if n < cs.length then n + 1 else n

/-- A comment of Rust.  Block comments nest, and a documentation comment that runs to the end of its
line owns the line feed. -/
def rustComment? : List Char → Option (String × Nat)
  | '/' :: '/' :: '/' :: '/' :: cs => some ("line_comment", 4 + lengthUntil endsLine cs)
  | '/' :: '/' :: '/' :: cs => some ("line_comment", 3 + wholeLineLength cs)
  | '/' :: '/' :: '!' :: cs => some ("line_comment", 3 + wholeLineLength cs)
  | '/' :: '/' :: cs => some ("line_comment", 2 + lengthUntil endsLine cs)
  | '/' :: '*' :: cs => (nestedBlockLength 1 cs).map fun n => ("block_comment", 2 + n)
  | _ => none

/-- A comment of Python. -/
def pythonComment? : List Char → Option (String × Nat)
  | '#' :: cs => some ("comment", 1 + lengthUntil endsLine cs)
  | _ => none

/-- The comment at the start of a text: its kind and its length. -/
def comment? : Language → List Char → Option (String × Nat)
  | .javaScript | .typeScript | .tsx => scriptComment?
  | .rust => rustComment?
  | .python => pythonComment?

/-- White space between tokens. -/
def isSpace : Language → Char → Bool
  | .rust, c => Text.isSpace c
  | _, c => Text.isSpace c || c == '\uFEFF' || c == '\u2060' || c == '\u200B'

/-! ### The start of a text -/

/-- Passes over the white space and the comments at the start of a text whose first character has
the given offset.  Gives the comments and what is left. -/
def leading (language : Language) (cs : List Char) (offset : Nat) : List Leaf × List Char :=
  match cs with
  | [] => ([], [])
  | c :: rest =>
    if isSpace language c then leading language rest (offset + 1)
    else
      match comment? language (c :: rest) with
      | some (kind, length) =>
        if _h : length = 0 then ([], c :: rest)
        else
          let (leaves, left) := leading language ((c :: rest).drop length) (offset + length)
          (⟨kind, ⟨offset, offset + length⟩⟩ :: leaves, left)
      | none => ([], c :: rest)
termination_by cs.length
decreasing_by
  · simp
  · simp only [List.length_drop, List.length_cons]
    omega

end Trivia

end CodeNotes
