import CodeNotes.Grammar.Python
import CodeNotes.Grammar.Rust
import CodeNotes.Grammar.TypeScript
import CodeNotes.Source.Comment

/-!
# From source text to syntax tree

The tree of a text has one node for the whole text and one below it for each comment, which is all
that is asked of it, and a faulty node where the text does not fit the grammar of its language.
-/

namespace CodeNotes

/-- The kind of the node for a whole text. -/
def Language.rootKind : Language → String
  | .javaScript | .typeScript | .tsx => "program"
  | .rust => "source_file"
  | .python => "module"

namespace Source

/-- Reads a text with the grammar of its language. -/
def read : Language → Array Char → Except Nat (List Leaf)
  | .typeScript => Grammar.TypeScript.automaton.read Grammar.TypeScript.lexicon
  | .tsx => Grammar.TypeScript.elementAutomaton.read Grammar.TypeScript.elementLexicon
  | .javaScript => Grammar.JavaScript.automaton.read Grammar.JavaScript.lexicon
  | .rust => Grammar.Rust.automaton.read Grammar.Rust.lexicon
  | .python => Grammar.Python.automaton.read Grammar.Python.lexicon

/-- The syntax tree of a text. -/
def parse (language : Language) (source : List Char) : Tree :=
  let whole (children : List Tree) : Tree :=
    .node language.rootKind ⟨0, source.length⟩ .sound children
  let leaf (l : Leaf) : Tree := .node l.kind l.span .sound []
  match Trivia.leading language source 0 with
  | (leaves, []) => whole (leaves.map leaf)
  | _ =>
    match read language source.toArray with
    | .ok leaves => whole (leaves.map leaf)
    | .error fault => whole [.node "ERROR" ⟨fault, source.length⟩ .error []]

/-- The first place where a text does not fit the grammar of its language. -/
structure Fault where
  position : Position
deriving DecidableEq

/-- The wording of a fault: line and column count from one. -/
def Fault.message (f : Fault) : String :=
  "Syntax error at line " ++ (f.position.row + 1).repr ++ ", column " ++
    (f.position.column + 1).repr

/-- The comments of a tree of a text, or the place where the first faulty node of it starts. -/
def commentsOfTree (language : Language) (text : List Char) (tree : Tree) :
    Except Fault (List Comment) :=
  if tree.hasFault then
    .error ⟨((tree.firstFault?).getD tree).span.startPosition text⟩
  else .ok (Comment.ofTree language text tree)

/-- The comments of a text, or the first place where the text does not fit. -/
def comments (language : Language) (source : String) : Except Fault (List Comment) :=
  commentsOfTree language source.toList (parse language source.toList)

end Source

end CodeNotes
