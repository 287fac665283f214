import CodeNotes.Disk.Access
import CodeNotes.Pattern.Wildcard

/-!
# Finding the files of a pattern

A pattern is taken apart at its separators.  A part without wildcards is appended to the path as it
is, so `.` and `..` stay in what is found; any other part is compared with the names in the
directory. What is found comes in the order of the names, a directory before what is in it, and the
search ends at the first directory that cannot be listed.
-/

namespace CodeNotes.Pattern

/-- A part of a pattern between separators. -/
structure Part where
  text : String
  tokens : List Token

namespace Part

/-- Whether a part has no wildcards. -/
def isLiteral (p : Part) : Bool :=
  p.tokens.all fun
    | .char _ => true
    | _ => false

/-- Whether a part stands for any number of directories. -/
def isRecursive (p : Part) : Bool :=
  p.tokens.contains .anyPath

/-- Whether a part stands for a name. -/
def matchesName (p : Part) (name : String) : Bool :=
  Pattern.matchesName p.tokens name.toList

end Part

/-- A pattern taken apart. -/
structure Query where
  /-- Where the search starts. -/
  start : Path
  parts : List Part
  /-- Whether only directories are meant. -/
  directoriesOnly : Bool

/-- Takes a pattern apart.  The whole is checked before its parts. -/
def query (text : String) : Except Misuse Query := do
  let _ ← tokens text
  let absolute := Path.isAbsolute ⟨text⟩
  let pieces := Path.pieces (if absolute then text.toList.drop 1 else text.toList)
  -- a separator at the end opens no part
  let pieces := if pieces.getLast? == some [] then pieces.dropLast else pieces
  let pieces := if text.isEmpty || text == "/" then [[]] else pieces
  let parts ← pieces.mapM fun piece =>
    (tokens (String.ofList piece)).map fun ts => (⟨String.ofList piece, ts⟩ : Part)
  return ⟨⟨if absolute then "/" else "."⟩, parts, text.toList.getLast? == some '/'⟩

/-- A directory that cannot be listed. -/
structure Blocked where
  path : Path
  fault : Disk.Fault
deriving DecidableEq

/-- The wording of a directory that cannot be listed. -/
def Blocked.message (b : Blocked) : String :=
  "attempting to read \x60" ++ b.path.text ++ "\x60 resulted in an error: " ++ b.fault.message

/-- What a search finds: paths, and the directory it ends at if it cannot go on. -/
structure Yield where
  paths : List Path := []
  blocked : Option Blocked := none

namespace Yield

/-- One search after another; the second is not begun if the first cannot go on. -/
def append (a b : Yield) : Yield :=
  match a.blocked with
  | some _ => a
  | none => ⟨a.paths ++ b.paths, b.blocked⟩

/-- Several searches, one after another. -/
def concat (l : List Yield) : Yield :=
  l.foldr append {}

/-- A single path. -/
def single (p : Path) : Yield :=
  ⟨[p], none⟩

end Yield

/-- Appends a name to the path of a directory; the directory `.` is left out. -/
def step (dir : Path) (name : String) : Path :=
  if dir.components == [.current] then ⟨name⟩ else dir.push name

/-- Whether a search takes what is at a path for a directory.  A directory tells the kinds of its
entries together with their names, so an entry counts as a directory also where its path is too long
to be followed; a link does not then, and neither does a step `.` or `..`, which no directory
lists. -/
def showsDirectory (disk : Disk) (p : Path) : Bool :=
  if p.text.utf8ByteSize < Disk.pathLimit then disk.isDirectory p
  else
    let steps := Disk.steps p.text
    let start := if p.isAbsolute then [] else disk.here
    if steps.getLast? == some "." || steps.getLast? == some ".." then false
    else
      match Disk.walk disk.root false Disk.linkLimit start steps with
      | .ok ⟨location, true⟩ =>
        match disk.root.at? location with
        | some (.directory _ _) => true
        | _ => false
      | _ => false

section

variable (disk : Disk) (directoriesOnly : Bool)

/-- A path that all parts are used up for. -/
def arrived (p : Path) : Yield :=
  if directoriesOnly && !showsDirectory disk p then {} else .single p

mutual

/-- What the parts stand for inside a directory.  The fuel bounds how deep the search goes. -/
def inside : Nat → List Part → Path → Yield
  | 0, _, _ => {}
  | _, [], _ => {}
  | fuel + 1, part :: parts, dir =>
    let onward (next : Path) : Yield :=
      if parts.isEmpty then arrived disk directoriesOnly next else inside fuel parts next
    if part.isLiteral then
      let next := step dir part.text
      let special := part.text == "." || part.text == ".."
      if if special then showsDirectory disk dir else disk.presentOrLink next then onward next
      else {}
    else if showsDirectory disk dir then
      match disk.list dir with
      | .error fault => ⟨[], some ⟨dir, fault⟩⟩
      | .ok names =>
        -- a pattern that starts with a dot can also stand for the directory and its parent
        let specials :=
          if part.tokens.head? == some (.char '.') then [".", ".."].filter part.matchesName else []
        Yield.append (Yield.concat ((specials.reverse.map fun s => onward (dir.push s))))
          (Yield.concat (names.map fun name => entry fuel (part :: parts) (step dir name)))
    else {}

/-- What the parts stand for at an entry of a directory, and below it. -/
def entry : Nat → List Part → Path → Yield
  | 0, _, _ => {}
  | _, [], _ => {}
  | fuel + 1, part :: parts, path =>
    let named (part : Part) (parts : List Part) : Yield :=
      match path.fileName? with
      | none => {}
      | some name =>
        if !part.matchesName name then {}
        else if parts.isEmpty then arrived disk directoriesOnly path
        else inside fuel parts path
    if part.isRecursive then
      let below := parts.dropWhile Part.isRecursive
      let deeper := if showsDirectory disk path then inside fuel (part :: below) path else {}
      match below with
      | [] => if showsDirectory disk path then (Yield.single path).append deeper else {}
      | next :: rest => (named next rest).append deeper
    else named part parts

end

end

/-- Everything a pattern stands for.  Each turn of the search uses up a part or makes the path
longer, and no directory whose path is too long can be listed. -/
def Query.run (q : Query) (disk : Disk) : Yield :=
  inside disk q.directoriesOnly (q.parts.length + 2 * Disk.pathLimit) q.parts q.start

end CodeNotes.Pattern
