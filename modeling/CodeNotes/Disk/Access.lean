import CodeNotes.Disk.Walk

/-!
# Reading and writing

A write either changes exactly one file or fails and changes nothing.
-/

namespace CodeNotes.Disk

/-- The bytes of the file a path leads to. -/
def readBytes (d : Disk) (p : Path) : Except Fault ByteArray :=
  (d.node p).bind fun
    | .file _ true | .directory _ true => .error .denied
    | .file content false => .ok content
    | .directory _ false => .error .isDirectory
    | .link _ => .error .tooManyLinks

/-- The text of the file a path leads to. -/
def readText (d : Disk) (p : Path) : Except Fault String :=
  (d.readBytes p).bind fun bytes =>
    match String.fromUTF8? bytes with
    | some s => .ok s
    | none => .error .notText

/-- The names in the directory a path leads to, in order. -/
def list (d : Disk) (p : Path) : Except Fault (List String) :=
  (d.node p).bind fun
    | .directory _ true => .error .denied
    | .directory entries false => .ok ((entries.map Prod.fst).mergeSort fun a b => decide (a ≤ b))
    | _ => .error .notDirectory

/-- Whether a path ends with a separator. -/
def asksForDirectory (p : Path) : Bool :=
  p.text.toList.getLast? == some '/'

/-- Writes the file a path leads to, which is made if it is not there. -/
def writeBytes (d : Disk) (p : Path) (content : ByteArray) : Except Fault Disk :=
  let stripped : Path := ⟨String.ofList ((p.text.toList.reverse.dropWhile (· == '/')).reverse)⟩
  let target := if asksForDirectory p && !stripped.text.isEmpty then stripped else p
  (d.arrive true target).bind fun a =>
    match if a.present then d.root.at? a.location else none with
    | some (.directory _ _) => .error .isDirectory
    | some (.file _ locked) =>
      if asksForDirectory p then .error .notDirectory
      else if locked then .error .denied
      else .ok { d with root := d.root.setAt (some (.file content false)) a.location }
    | _ =>
      if asksForDirectory p then .error .isDirectory
      else .ok { d with root := d.root.setAt (some (.file content false)) a.location }

/-- Writes a text. -/
def writeText (d : Disk) (p : Path) (s : String) : Except Fault Disk :=
  d.writeBytes p s.toUTF8

/-! ### Making and removing -/

/-- Makes the directories along the steps of a path that are not there. -/
def makeDirectories (d : Disk) (p : Path) : Disk :=
  let pieces := (Path.pieces p.text.toList).map String.ofList
  let prefixes := (List.range pieces.length).map fun n => "/".intercalate (pieces.take (n + 1))
  prefixes.foldl
    (fun d text =>
      match d.arrive true ⟨text⟩ with
      | .ok ⟨location, false⟩ =>
        { d with root := d.root.setAt (some (.directory [] false)) location }
      | _ => d)
    d

/-- The path of the directory that the last step of a path is taken in. -/
def parentPath (p : Path) : Path :=
  ⟨"/".intercalate ((Path.pieces p.text.toList).dropLast.map String.ofList)⟩

/-- Puts a node at a path, making directories on the way.  A link at the end of the path is
replaced, unless a file is put there, which goes where the link leads. -/
def place (d : Disk) (p : Path) (n : Node) : Disk :=
  let d := if (parentPath p).text.isEmpty then d else d.makeDirectories (parentPath p)
  let through := match n with
    | .file _ _ => true
    | _ => false
  match d.arrive through p with
  | .ok a => { d with root := d.root.setAt (some n) a.location }
  | .error _ => d

/-- Removes the node at a path, with everything in it. -/
def remove (d : Disk) (p : Path) : Disk :=
  match d.arrive false p with
  | .ok ⟨location, true⟩ => { d with root := d.root.setAt none location }
  | _ => d

/-- Locks the file or directory a path leads to. -/
def lock (d : Disk) (p : Path) : Disk :=
  match d.locate p with
  | .error _ => d
  | .ok location =>
    match d.root.at? location with
    | some (.file content _) => { d with root := d.root.setAt (some (.file content true)) location }
    | some (.directory entries _) =>
      { d with root := d.root.setAt (some (.directory entries true)) location }
    | _ => d

end CodeNotes.Disk
