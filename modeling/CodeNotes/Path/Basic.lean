/-!
# Paths

A path is kept as it was written.  Its *components* are what it means: repeated separators and `.`
components after the first position do not count, so two spellings can have the same components.
Paths are ordered by their components.

Paths are UTF-8 text, and so are the names on a disk.  Where a path is shown (in a link, in the data
of a note, in a message), bytes that are no UTF-8 would be replaced; on text this lossy conversion
is the identity, so a path is shown as it is.  Names of other bytes are outside the model.
-/

namespace CodeNotes

/-- A path as it was written, with `/` between its parts: UTF-8 text, on which the lossy conversion
to text is the identity. -/
structure Path where
  text : String
deriving DecidableEq

namespace Path

/-- One step of a path. -/
inductive Component where
  | root
  | current
  | parent
  | name (text : String)
deriving DecidableEq

/-- The text of a component inside a path. -/
def Component.text : Component → String
  | .root => "/"
  | .current => "."
  | .parent => ".."
  | .name s => s

/-- The kinds of components in the order in which they sort. -/
def Component.rank : Component → Nat
  | .root => 0
  | .current => 1
  | .parent => 2
  | .name _ => 3

/-- The root comes first, then `.`, then `..`, then names by code point. -/
def Component.order : Component → Component → Ordering
  | .name a, .name b => compare a b
  | a, b => compare a.rank b.rank

/-- The pieces of a text between separators, empty ones included. -/
def pieces (cs : List Char) : List (List Char) :=
  cs.splitOn '/'

/-- The component a piece stands for after the first position. -/
def inner? (piece : List Char) : Option Component :=
  if piece.isEmpty || piece == ['.'] then none
  else if piece == ['.', '.'] then some .parent
  else some (.name (String.ofList piece))

/-- Whether a path starts at the root. -/
def isAbsolute (p : Path) : Bool :=
  p.text.toList.head? == some '/'

/-- The components of a path. -/
def components (p : Path) : List Component :=
  match pieces p.text.toList with
  | [] => []
  | first :: rest =>
    let start :=
      if p.isAbsolute then [Component.root]
      else if first == ['.'] then [Component.current]
      else (inner? first).toList
    start ++ rest.filterMap inner?

/-- Compares lists of components; a strict prefix comes first. -/
def orderComponents : List Component → List Component → Ordering
  | [], [] => .eq
  | [], _ :: _ => .lt
  | _ :: _, [] => .gt
  | a :: as, b :: bs =>
    match a.order b with
    | .eq => orderComponents as bs
    | o => o

/-- The order of paths, by components. -/
def order (p q : Path) : Ordering :=
  orderComponents p.components q.components

/-- Appends a part: an absolute part replaces the path, any other is set off by one separator. -/
def push (p : Path) (part : String) : Path :=
  if part.toList.head? == some '/' then ⟨part⟩
  else if p.text.isEmpty || p.text.toList.getLast? == some '/' then ⟨p.text ++ part⟩
  else ⟨p.text ++ "/" ++ part⟩

/-- The last component, when it is a name. -/
def fileName? (p : Path) : Option String :=
  match p.components.getLast? with
  | some (.name s) => some s
  | _ => none

/-- What follows the last dot of the file name; a name whose only dot stands first has none. -/
def extension? (p : Path) : Option String := do
  let name ← p.fileName?
  let reversed := name.toList.reverse
  let ext := reversed.takeWhile (· != '.')
  match reversed.drop ext.length with
  | _ :: _ :: _ => some (String.ofList ext.reverse)
  | _ => none

end Path

end CodeNotes
