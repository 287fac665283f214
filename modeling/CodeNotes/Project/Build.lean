import CodeNotes.Document.Markdown
import CodeNotes.Note.Order
import CodeNotes.Project.Collect

/-!
# From files to the document

The options are looked at before any file is; then the notes are collected, put in outline order and
rendered.
-/

namespace CodeNotes.Project

/-- Options that are not valid are a failure of the settings. -/
def checkOptions (options : RenderOptions) : Except Failure Unit :=
  match options.validate with
  | .ok () => .ok ()
  | .error fault => .error (.config (.options fault))

/-- The notes of a project in outline order. -/
def notes (files : FileSource) (options : RenderOptions) (dir : Path)
    (patterns ignore : List String) : Except Failure (List Note) :=
  (checkOptions options).bind fun _ =>
    (collect files dir patterns ignore).map Note.sort

/-- The document of a project. -/
def build (files : FileSource) (options : RenderOptions) (dir : Path)
    (patterns ignore : List String) : Except Failure String :=
  (notes files options dir patterns ignore).map (Document.render options dir)

/-- What is reported when a document is built or notes are put in order. -/
def journal (files : FileSource) (options : RenderOptions) (dir : Path)
    (patterns ignore : List String) : Journal :=
  match checkOptions options with
  | .error _ => []
  | .ok () => collectJournal files dir patterns ignore

end CodeNotes.Project
