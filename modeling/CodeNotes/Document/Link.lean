import CodeNotes.Note.Basic
import CodeNotes.Path.Relative

/-!
# Context links

Every note in the document ends with a link to the lines it was read from.  The link shows the file
as seen from the working directory, behind a configurable start.
-/

namespace CodeNotes.Document

/-- The start of a link without its trailing slashes. -/
def linkBase (base : String) : String :=
  String.ofList (Text.dropEndWhile (· == '/') base.toList)

/-- The target of a link: the file as seen from `dir`, and its lines. -/
def linkTarget (base : String) (path dir : Path) (lines : LineRange) : String :=
  linkBase base ++ "/" ++ (path.relativeTo dir).linkText ++
    "#L" ++ lines.first.repr ++ "-L" ++ lines.last.repr

/-- The link of a note. -/
def contextLink (note : Note) (dir : Path) (base : String) : String :=
  "[See in context](" ++ linkTarget base note.path dir note.lines ++ ")"

end CodeNotes.Document
