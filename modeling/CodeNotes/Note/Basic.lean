import CodeNotes.Note.Id
import CodeNotes.Path.Basic

/-!
# Notes

A *fragment* is what a single comment says: id, title and body.  A *note* is a fragment together
with the file and the lines it stands in.
-/

namespace CodeNotes

/-- The lines a comment occupies, counted from one, both ends included. -/
structure LineRange where
  first : Nat
  last : Nat
deriving DecidableEq, Repr

/-- What the marker grammar reads from one comment. -/
structure Fragment where
  id : NoteId
  title : String
  body : String
deriving DecidableEq

/-- An architecture note located in a source file. -/
structure Note where
  id : NoteId
  title : String
  body : String
  path : Path
  lines : LineRange
deriving DecidableEq

/-- A fragment placed in a file. -/
def Fragment.at (f : Fragment) (path : Path) (lines : LineRange) : Note :=
  ⟨f.id, f.title, f.body, path, lines⟩

end CodeNotes
