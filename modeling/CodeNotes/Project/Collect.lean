import CodeNotes.Disk.Access
import CodeNotes.Project.Selection
import CodeNotes.Source.Journal

/-!
# Collecting notes

Where files come from is told by a `FileSource`: it says which files there are and what is in them.
The notes of a project are those of its files, file by file, and the first file that cannot be read
or does not fit its language makes the whole collection fail.
-/

namespace CodeNotes

/-- Where files come from. -/
structure FileSource where
  /-- The files that patterns stand for, less those to skip, as seen from a directory. -/
  resolve : List String → List String → Path → Except Failure (List Path)
  /-- What is reported when files are looked for. -/
  journal : List String → List String → Path → Journal
  /-- The text of a file. -/
  read : Path → Except ReadFault String

/-- The files of a disk. -/
def FileSource.ofDisk [Ignore.Engine] (disk : Disk) : FileSource where
  resolve := Selection.resolve disk
  journal := Selection.journal disk
  read p :=
    match disk.readText p with
    | .ok s => .ok s
    | .error fault => .error (.disk fault)

namespace Project

/-- The notes of a file. -/
def notesOfFile (files : FileSource) (path : Path) : Except Failure (List Note) :=
  match files.read path with
  | .error fault => .error (.file path fault)
  | .ok source =>
    match Source.extract path source with
    | .error fault => .error (.parse path fault)
    | .ok notes => .ok notes

/-- The notes of all files, in the order of the files. -/
def collect (files : FileSource) (dir : Path) (patterns ignore : List String) :
    Except Failure (List Note) :=
  (files.resolve patterns ignore dir).bind fun paths =>
    (paths.mapM (notesOfFile files)).map List.flatten

/-- What is reported about files, one after another, until one fails. -/
def filesJournal (files : FileSource) : List Path → Journal
  | [] => []
  | path :: rest =>
    match files.read path with
    | .error _ => []
    | .ok source =>
      Source.extractJournal path source ++
        match Source.extract path source with
        | .error _ => []
        | .ok _ => filesJournal files rest

/-- What is reported when notes are collected. -/
def collectJournal (files : FileSource) (dir : Path) (patterns ignore : List String) : Journal :=
  files.journal patterns ignore dir ++
    match files.resolve patterns ignore dir with
    | .error _ => []
    | .ok paths =>
      filesJournal files paths ++
        match collect files dir patterns ignore with
        | .error _ => []
        | .ok notes =>
          [⟨.info, "archnotes_core::collect",
            "Collected " ++ notes.length.repr ++ " notes from " ++ paths.length.repr ++ " files"⟩]

end Project

end CodeNotes
