import CodeNotes.Config.Options
import CodeNotes.Document.Link

/-!
# The document

Notes are rendered in the order given, each as a heading, its body if it has one, and its link, with
an empty line after each part.  The depth of an id is the depth of its heading below the title.  No
notes give no document at all.
-/

namespace CodeNotes.Document

/-- The title of the document. -/
def title : String := "Architecture Notes"

/-- A part of the document followed by an empty line. -/
def paragraph (options : RenderOptions) (text : String) : String :=
  text ++ options.eol ++ options.eol

/-- The heading of a note. -/
def heading (options : RenderOptions) (note : Note) : String :=
  options.titleLevel ++ String.ofList (List.replicate note.id.depth '#') ++ " " ++ note.title

/-- The parts a note contributes, in order. -/
def noteParts (options : RenderOptions) (dir : Path) (note : Note) : List String :=
  [heading options note] ++ (if note.body.isEmpty then [] else [note.body]) ++
    [contextLink note dir options.base]

/-- The parts of a document that is not empty. -/
def parts (options : RenderOptions) (dir : Path) (notes : List Note) : List String :=
  (options.titleLevel ++ " " ++ title) :: notes.flatMap (noteParts options dir)

/-- Renders notes in the given order. -/
def render (options : RenderOptions) (dir : Path) (notes : List Note) : String :=
  if notes.isEmpty then ""
  else String.join ((parts options dir notes).map (paragraph options))

end CodeNotes.Document
