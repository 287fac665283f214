import CodeNotes.Journal
import CodeNotes.Path.Relative
import CodeNotes.Pattern.Engine
import CodeNotes.Project.Failure

/-!
# Selecting files

The files of a project are those that some pattern stands for and no pattern of files to skip
matches. They come in the order of their components, and of several spellings with the same
components the one found first is kept.
-/

namespace CodeNotes.Selection

/-! ### Sorted paths -/

/-- Puts a path into a sorted list, unless one with the same components is there. -/
def insert (p : Path) : List Path → List Path
  | [] => [p]
  | q :: rest =>
    match p.order q with
    | .lt => p :: q :: rest
    | .eq => q :: rest
    | .gt => q :: insert p rest

/-- The paths of a list in order, each component list once. -/
def sorted (l : List Path) : List Path :=
  l.foldl (fun done p => insert p done) []

/-! ### Patterns of files to skip -/

/-- Reads the patterns of files to skip; the first one that is not well formed is reported. -/
def read (patterns : List String) : Except Failure (List (List Ignore.Token)) :=
  patterns.mapM fun p =>
    match Ignore.tokens p with
    | .ok ts => .ok ts
    | .error flaw => .error (.pattern p (.ignore p flaw))

/-- Reads the patterns of files to skip and puts them together.  Where that cannot be done, no
single pattern is to blame and all of them are named. -/
def ignoring [Ignore.Engine] (patterns : List String) :
    Except Failure (List (List Ignore.Token)) :=
  (read patterns).bind fun tokens =>
    match Ignore.Engine.refusal? tokens with
    | none => .ok tokens
    | some reason => .error (.pattern (", ".intercalate patterns) (.refused reason))

/-- Whether one of several patterns matches a path as seen from a directory. -/
def isIgnored (ignored : List (List Ignore.Token)) (dir p : Path) : Bool :=
  let relative := (p.under? dir).getD p
  ignored.any fun ts => Ignore.matchesText ts relative.text

/-! ### Patterns of files -/

/-- A pattern as seen from a directory, whose own name has no wildcards. -/
def rooted (dir : Path) (pattern : String) : String :=
  if Path.isAbsolute ⟨pattern⟩ then pattern
  else
    let root := (Pattern.escape dir.text).toList
    String.ofList (root.reverse.dropWhile (· == '/')).reverse ++ "/" ++ pattern

/-- What a search came to: the files found until it ended, and why it ended early if it did. -/
structure Finding where
  files : List Path := []
  fault : Option PatternFault := none

/-- The files a pattern stands for. -/
def find (disk : Disk) (dir : Path) (pattern : String) : Finding :=
  match Pattern.query (rooted dir pattern) with
  | .error m => ⟨[], some (.misuse m)⟩
  | .ok q =>
    let yield := q.run disk
    ⟨yield.paths.filter disk.isFile, yield.blocked.map .blocked⟩

/-- The files that patterns stand for, in the order found, with the pattern that could not be
followed to its end, if any; later patterns are not looked at. -/
def findAll (disk : Disk) (dir : Path) : List String → List Path × Option (String × PatternFault)
  | [] => ([], none)
  | pattern :: rest =>
    let found := find disk dir pattern
    match found.fault with
    | some fault => (found.files, some (pattern, fault))
    | none =>
      let (files, fault) := findAll disk dir rest
      (found.files ++ files, fault)

/-- The files of a project. -/
def resolve [Ignore.Engine] (disk : Disk) (patterns ignore : List String) (dir : Path) :
    Except Failure (List Path) :=
  (ignoring ignore).bind fun ignored =>
    match findAll disk dir patterns with
    | (_, some (pattern, fault)) => .error (.pattern pattern fault)
    | (files, none) => .ok (sorted (files.filter fun p => !isIgnored ignored dir p))

/-- What is reported when the files of a project are looked for. -/
def journal [Ignore.Engine] (disk : Disk) (patterns ignore : List String) (dir : Path) : Journal :=
  match ignoring ignore with
  | .error _ => []
  | .ok ignored =>
    let (files, _) := findAll disk dir patterns
    let skipped := files.filter (isIgnored ignored dir)
    let records := skipped.map fun p =>
      (⟨.debug, "archnotes_core::fs", "Skipping ignored file " ++ p.text⟩ : Record)
    match resolve disk patterns ignore dir with
    | .error _ => records
    | .ok chosen =>
      records ++
        [⟨.info, "archnotes_core::fs",
          "Found " ++ chosen.length.repr ++ " files matching " ++ patterns.length.repr ++
            " patterns"⟩]

end CodeNotes.Selection
