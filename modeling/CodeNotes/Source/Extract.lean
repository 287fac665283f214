import CodeNotes.Note.Marker
import CodeNotes.Source.Parse

/-!
# The notes of a file

A first line such as `#! /usr/bin/env node` is no syntax of most languages, so it is turned into a
comment before the text is read; lines keep their numbers.  Of the comments that are then found,
those with a marker are notes.
-/

namespace CodeNotes.Source

/-- Whether a text starts with `#!`, spaces or tabs, and a slash. -/
def hasShebang (cs : List Char) : Bool :=
  match Text.afterPrefix? ['#', '!'] cs with
  | some rest => (rest.dropWhile fun c => c == ' ' || c == '\t').head? == some '/'
  | none => false

/-- Turns a first line with an interpreter into a comment, where the language needs it. -/
def neutralizeShebang (language : Language) (source : String) : String :=
  match language.lineCommentPrefix? with
  | some mark => if hasShebang source.toList then mark ++ source else source
  | none => source

/-- The notes among the comments of a file, in the same order. -/
def notesOfComments (path : Path) (comments : List Comment) : List Note :=
  comments.filterMap fun c => (Marker.parse? c.text).map (·.at path c.lines)

/-- The comments of a file whose language is told from its path. -/
def commentsOfFile (path : Path) (source : String) : Except Fault (List Comment) :=
  let language := Language.ofPath path
  comments language (neutralizeShebang language source)

/-- The notes of a file, in the order in which they stand in it. -/
def extract (path : Path) (source : String) : Except Fault (List Note) :=
  (commentsOfFile path source).map (notesOfComments path)

end CodeNotes.Source
