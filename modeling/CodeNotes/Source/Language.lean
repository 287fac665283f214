import CodeNotes.Path.Basic

/-!
# Source languages

The languages whose comments can be read, how a file's language is told from its name, and which
syntax nodes of a language are comments.
-/

namespace CodeNotes

/-- The language of a source file. -/
inductive Language where
  | javaScript
  | typeScript
  | tsx
  | rust
  | python
deriving DecidableEq, Repr

namespace Language

/-- The name of a language. -/
def name : Language → String
  | javaScript => "javascript"
  | typeScript => "typescript"
  | tsx => "tsx"
  | rust => "rust"
  | python => "python"

/-- The file extensions of each language. -/
def extensions : List (Language × List String) :=
  [(javaScript, ["js", "mjs", "cjs", "jsx"]), (typeScript, ["ts", "mts", "cts"]), (tsx, ["tsx"]),
    (rust, ["rs"]), (python, ["py", "pyw"])]

/-- The language with a given file extension, letter case aside.  Every extension is made of ASCII
letters that no other letter becomes in lower case, so lowering ASCII letters is enough. -/
def ofExtension? (ext : String) : Option Language :=
  let lowered := String.ofList (ext.toList.map Char.toLower)
  (extensions.find? fun entry => entry.2.contains lowered).map Prod.fst

/-- The language of a file; a file with an unknown extension or none is taken for JavaScript. -/
def ofPath (p : Path) : Language :=
  (p.extension?.bind ofExtension?).getD javaScript

/-- Whether syntax nodes of this kind are comments. -/
def isCommentKind (language : Language) (kind : String) : Bool :=
  match language with
  | rust => kind == "line_comment" || kind == "block_comment"
  | javaScript | typeScript | tsx | python => kind == "comment"

/-- What turns a line into a comment, in languages that do not read `#!` as one. -/
def lineCommentPrefix? : Language → Option String
  | javaScript | typeScript | tsx | rust => some "//"
  | python => none

end Language

end CodeNotes
