import CodeNotes.Command.Run

/-!
# The program

The only part that touches the real disk.  It looks at the directories a command line is about,
reads the files that were selected, runs the command on what it found, and prints or writes the
result.
-/

namespace CodeNotes.Shell

/-- What an action gives, if it can be done. -/
def attempt {α : Type} (action : IO α) : IO (Option α) := do
  try
    return some (← action)
  catch _ =>
    return none

/-- A place on the real disk. -/
def entryAt (path : String) : IO.FS.DirEntry :=
  { root := ".", fileName := path }

/-- The path without links to a place, if it is there. -/
def realPath? (path : String) : IO (Option String) := do
  let entry := entryAt path
  if (← attempt entry.path.metadata).isNone then return none
  return (← attempt (IO.FS.realPath entry.path)).map fun p => p.toString

/-- The node at a place, down to a depth, with the paths that links in it lead to.  Files are taken
to be empty. -/
def survey : Nat → IO.FS.DirEntry → IO (Node × List String)
  | 0, _ => return (.directory [] false, [])
  | depth + 1, entry => do
    match ← attempt entry.path.symlinkMetadata with
    | none => return (.file ByteArray.empty true, [])
    | some data =>
      match data.type with
      | .dir =>
        match ← attempt entry.path.readDir with
        | none => return (.directory [] true, [])
        | some children =>
          let found ← children.toList.mapM fun child => do
            let (node, links) ← survey depth child
            return ((child.fileName, node), links)
          return (.directory (found.map Prod.fst) false, found.flatMap Prod.snd)
      | .symlink =>
        match ← realPath? entry.path.toString with
        | some target => return (.link target, [target])
        | none => return (.link "?/", [])
      | _ => return (.file ByteArray.empty false, [])

/-- No path is deeper than this. -/
def anyDepth : Nat := Disk.pathLimit

/-- Whether a path lies in one of several directories. -/
def isCovered (seen : List String) (path : String) : Bool :=
  seen.any fun dir => path == dir || (dir ++ "/").toList.isPrefixOf path.toList

/-- Looks at directories, and at what links in them lead to, and puts them on a disk. -/
partial def load (disk : Disk) (seen : List String) : List String → IO Disk
  | [] => return disk
  | path :: rest => do
    if isCovered seen path then load disk seen rest
    else
      let (node, links) ← survey anyDepth (entryAt path)
      load (disk.place ⟨path⟩ node) (path :: seen) (rest ++ links)

/-- Looks at the names in a directory, and puts them on a disk. -/
def loadNames (disk : Disk) (path : String) : IO Disk := do
  match ← realPath? path with
  | none => return disk
  | some real =>
    let (node, _) ← survey 2 (entryAt real)
    return disk.place ⟨real⟩ node

/-- Puts the content of a file on a disk. -/
def loadContent (disk : Disk) (path : Path) : IO Disk := do
  match disk.locate path with
  | .error _ => return disk
  | .ok location =>
    let node :=
      match ← attempt (IO.FS.readBinFile (entryAt path.text).path) with
      | some bytes => Node.file bytes false
      | none => Node.file ByteArray.empty true
    if disk.isFile path then return { disk with root := disk.root.setAt (some node) location }
    else return disk

/-- The directory that a path lies in. -/
def parent (path : Path) : String :=
  let steps := (Path.pieces path.text.toList).dropLast
  if steps.isEmpty then "." else String.ofList (['/'].intercalate steps) ++ "/"

/-- The directory that a pattern starts in: the steps before the last one and before the first one
with a wildcard. -/
def start (dir : Path) (pattern : String) : String :=
  let steps := (Path.pieces pattern.toList).dropLast.takeWhile fun step =>
    step.all fun c => !"?*[".toList.contains c
  let literal := String.ofList (['/'].intercalate steps) ++ "/"
  if Path.isAbsolute ⟨pattern⟩ then literal else dir.text ++ "/" ++ literal

/-- What a command line is about, as far as it is on the disk. -/
def gather (a : Command.Arguments) : IO Disk := do
  let here := (← realPath? ".").getD "/"
  let mut disk ← loadNames {} here
  disk := { disk with here := Disk.steps here }
  for path in a.config.toList ++ a.output.toList do
    disk ← loadNames disk (parent path)
  let given := a.cwd.elim "." Path.text
  disk ← loadNames disk given
  match Command.directory disk a with
  | .error _ => return disk
  | .ok dir =>
    match Command.configPath disk a dir with
    | .error _ => return disk
    | .ok path =>
      disk ← loadContent disk path
      match Command.settings disk a dir with
      | .error _ => return disk
      | .ok config =>
        let starts ← config.patterns.mapM fun p => realPath? (start dir p)
        let full ← load disk [] (starts.filterMap id)
        disk ← loadContent full path
        match Selection.resolve disk config.patterns config.ignore dir with
        | .error _ => return disk
        | .ok paths => paths.foldlM loadContent disk

/-- Writes the result of a run to the real disk. -/
def store (outcome : Command.Outcome) (path : Path) : IO UInt32 := do
  match outcome.disk.readBytes path with
  | .error _ => return 1
  | .ok bytes =>
    match ← attempt (IO.FS.writeBinFile (entryAt path.text).path bytes) with
    | some () => return 0
    | none =>
      IO.eprint (Command.RunFault.output path .denied).report
      return 1

end CodeNotes.Shell

open CodeNotes in
/-- Runs the command on the real disk. -/
def main (arguments : List String) : IO UInt32 := do
  let given :=
    match Command.parse arguments with
    | .ok (.document a) => some a
    | _ => none
  let disk ← given.elim (pure {}) Shell.gather
  let outcome := Command.run disk (← IO.getEnv "RUST_LOG") arguments
  for record in outcome.journal do
    IO.eprintln ("[" ++ record.level.name ++ " " ++ record.target ++ "] " ++ record.text)
  IO.eprint outcome.stderr
  IO.print outcome.stdout
  match given.bind (·.output) with
  | some path =>
    if outcome.status == 0 then Shell.store outcome path else return UInt32.ofNat outcome.status
  | none => return UInt32.ofNat outcome.status
