import CodeNotes.Path.Basic

/-!
# Disks

A disk is a tree of files, directories and symbolic links, seen from a current directory.  A node
that is *locked* cannot be opened: a locked file cannot be read, and a locked directory can neither
be listed nor passed through.
-/

namespace CodeNotes

/-- A node of the tree. -/
inductive Node where
  | file (content : ByteArray) (locked : Bool)
  | directory (entries : List (String × Node)) (locked : Bool)
  /-- A symbolic link with what it says. -/
  | link (target : String)

/-- The names that lead from the root to a node. -/
abbrev Location := List String

/-- A tree and the current directory. -/
structure Disk where
  root : Node := .directory [] false
  here : Location := []

namespace Disk

/-- Why a path cannot be used. -/
inductive Fault where
  | notFound
  | denied
  | notDirectory
  | isDirectory
  | nameTooLong
  | tooManyLinks
  /-- The bytes of a file are no text. -/
  | notText
deriving DecidableEq, Repr

/-- The wording of a fault. -/
def Fault.message : Fault → String
  | .notFound => "No such file or directory (os error 2)"
  | .denied => "Permission denied (os error 13)"
  | .notDirectory => "Not a directory (os error 20)"
  | .isDirectory => "Is a directory (os error 21)"
  | .nameTooLong => "File name too long (os error 36)"
  | .tooManyLinks => "Too many levels of symbolic links (os error 40)"
  | .notText => "stream did not contain valid UTF-8"

end Disk

namespace Node

/-- The entry of a directory with a name. -/
def child? (n : Node) (name : String) : Option Node :=
  match n with
  | .directory entries _ => (entries.find? fun e => e.1 == name).map Prod.snd
  | _ => none

/-- The node at a location. -/
def at? (n : Node) : Location → Option Node
  | [] => some n
  | name :: rest => (n.child? name).bind fun c => c.at? rest

/-- Sets the entry of a directory with a name, or removes it. -/
def setChild (n : Node) (name : String) (new : Option Node) : Node :=
  match n with
  | .directory entries locked =>
    match new with
    | none => .directory (entries.filter fun e => e.1 != name) locked
    | some c =>
      if entries.any fun e => e.1 == name then
        .directory (entries.map fun e => if e.1 == name then (name, c) else e) locked
      else .directory (entries ++ [(name, c)]) locked
  | other => other

/-- Sets the node at a location whose parent is there, or removes it. -/
def setAt (n : Node) (new : Option Node) : Location → Node
  | [] => new.getD n
  | [name] => n.setChild name new
  | name :: rest =>
    match n.child? name with
    | some c => n.setChild name (some (c.setAt new rest))
    | none => n

end Node

end CodeNotes
