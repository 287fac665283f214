import CodeNotes.Source.Language
import CodeNotes.Source.Tree
import CodeNotes.Text.Space

/-!
# Comments

What a comment says once its delimiters are gone, and the comments of a syntax tree.  Block comments
keep their inner text as it is; line comments also lose the line breaks at their end.
-/

namespace CodeNotes

/-- A comment of a source text, without its delimiters. -/
structure Comment where
  text : String
  lines : LineRange
deriving DecidableEq

namespace Comment

/-- Drops a leading character if it is one of the two given. -/
def dropMark (a b : Char) (cs : List Char) : List Char :=
  match cs with
  | c :: rest => if c == a || c == b then rest else cs
  | [] => []

/-- The text of a block comment, from what follows its opening. -/
def blockText (inner : List Char) : List Char :=
  dropMark '*' '!' ((Text.beforeSuffix? ['*', '/'] inner).getD inner)

/-- The text of a line comment, from what follows its opening. -/
def lineText (inner : List Char) : List Char :=
  Text.dropEndWhile Text.isBreak inner

/-- Removes the delimiters of a comment. -/
def strip : List Char → List Char
  | '/' :: '*' :: inner => blockText inner
  | '/' :: '/' :: inner => lineText (dropMark '/' '!' inner)
  | '#' :: inner => lineText inner
  | cs => lineText cs

/-- The comment that a node of a source text is. -/
def ofNode (source : List Char) (node : Tree) : Comment :=
  ⟨String.ofList (strip (node.span.text source)), node.span.lines source⟩

/-- The comments of a syntax tree, in source order. -/
def ofTree (language : Language) (source : List Char) (tree : Tree) : List Comment :=
  (tree.outermost fun t => language.isCommentKind t.kind).map (ofNode source)

end Comment

end CodeNotes
