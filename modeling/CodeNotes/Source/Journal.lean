import CodeNotes.Journal
import CodeNotes.Source.Extract

/-!
# What is reported about sources

The number of comments of a text that could be read, the markers whose id cannot be represented, and
the number of comments and notes of a file.
-/

namespace CodeNotes

/-- What is reported when the text of a comment is read. -/
def Marker.journal (text : String) : Journal :=
  match read text with
  | .error (.badId reason) =>
    [⟨.debug, "archnotes_core::marker", "Ignoring marker: " ++ reason.message⟩]
  | _ => []

namespace Source

/-- What is reported when the comments of a text are looked for. -/
def commentsJournal (language : Language) (result : Except Fault (List Comment)) : Journal :=
  match result with
  | .ok found =>
    [⟨.trace, "archnotes_comments::parser",
      "Found " ++ found.length.repr ++ " " ++ language.name ++ " comments"⟩]
  | .error _ => []

/-- What is reported when the comments of a file are taken for notes. -/
def notesJournal (found : List Comment) : Journal :=
  found.flatMap fun c => Marker.journal c.text

/-- What is reported when the notes of a file are looked for. -/
def extractJournal (path : Path) (source : String) : Journal :=
  let result := commentsOfFile path source
  commentsJournal (Language.ofPath path) result ++
    match result with
    | .ok found =>
      notesJournal found ++
        [⟨.debug, "archnotes_core::extract",
          path.text ++ ": " ++ found.length.repr ++ " comments, " ++
            (notesOfComments path found).length.repr ++ " notes"⟩]
    | .error _ => []

end Source

end CodeNotes
