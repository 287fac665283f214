import CodeNotes.Note.Basic

/-!
# The marker

A comment is a note when its text starts, after white space, with `Architecture Note #`, a dotted
id, a colon and a blank.  The title is the rest of that line and the body is everything after it,
both trimmed.  A dotted id of the right shape whose numbers are too large is told apart from a text
without a marker, because it is worth a warning.
-/

namespace CodeNotes.Marker

/-- The text that opens a marker. -/
def opening : List Char :=
  "Architecture Note #".toList

/-- Why a text holds no note. -/
inductive Refusal where
  /-- The text does not start with a marker. -/
  | absent
  /-- The marker is well formed but its id cannot be represented. -/
  | badId (reason : NoteId.Malformed)
deriving DecidableEq

/-- A digit or a dot: what a dotted id is made of. -/
def isIdChar (c : Char) : Bool :=
  Text.isDigit c || c == '.'

/-- One to eight non-empty groups of digits, separated by single dots. -/
def isDotted (cs : List Char) : Bool :=
  let groups := cs.splitOn '.'
  groups.all (fun g => !g.isEmpty && g.all Text.isDigit) && groups.length ≤ NoteId.maxDepth

/-- The parts of a marker: the text of the id, the rest of the line, and what follows the line. -/
structure Parts where
  id : List Char
  title : List Char
  body : List Char

/-- Splits a text into the parts of a marker. -/
def parts? (cs : List Char) : Option Parts := do
  let afterHash ← Text.afterPrefix? opening (Text.trimStart cs)
  let id := afterHash.takeWhile isIdChar
  if !isDotted id then none
  else
    let afterColon ← Text.afterPrefix? [':'] (afterHash.dropWhile isIdChar)
    if !(afterColon.head?.any Text.isBlank) then none
    else
      some ⟨id, afterColon.takeWhile (!Text.isBreak ·), afterColon.dropWhile (!Text.isBreak ·)⟩

/-- Reads a comment's text as a fragment, or says why it is none. -/
def read (text : String) : Except Refusal Fragment :=
  match parts? text.toList with
  | none => .error .absent
  | some p =>
    match NoteId.parse (String.ofList p.id) with
    | .error e => .error (.badId e)
    | .ok id =>
      .ok ⟨id, String.ofList (Text.trim p.title), String.ofList (Text.trim p.body)⟩

/-- The fragment a comment's text holds, if any. -/
def parse? (text : String) : Option Fragment :=
  (read text).toOption

end CodeNotes.Marker
