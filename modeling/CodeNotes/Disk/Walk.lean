import CodeNotes.Disk.Basic

/-!
# Following paths

A path is followed name by name.  Every directory on the way must be open, `..` leads to the parent,
and a symbolic link stands for the path it says, seen from the directory it lies in.  No more than
`linkLimit` links are followed.
-/

namespace CodeNotes.Disk

/-- The greatest number of bytes of a name. -/
def nameLimit : Nat := 255

/-- A path must have fewer bytes than this. -/
def pathLimit : Nat := 4096

/-- The greatest number of links that are followed on the way. -/
def linkLimit : Nat := 40

/-- The steps of a path.  A separator at the end asks for a directory, as a last step `.` does. -/
def steps (text : String) : List String :=
  let pieces := Path.pieces text.toList
  let names := (pieces.filter (!·.isEmpty)).map String.ofList
  if pieces.getLast? == some [] && !names.isEmpty then names ++ ["."] else names

/-- Where following a path ends: at a node, or at a name that is not there in a directory that is.
-/
structure Arrival where
  location : Location
  present : Bool
deriving DecidableEq, Repr

/-- Follows steps from a directory.  `through` tells whether a link at the very end is followed, and
`follow` goes on from a directory once a link has been replaced by the steps it says. -/
def walkWith (root : Node) (through : Bool)
    (follow : Location → List String → Except Fault Arrival) :
    Location → List String → Except Fault Arrival
  | place, [] => .ok ⟨place, true⟩
  | place, step :: rest =>
    match root.at? place with
    | some (.directory _ true) => .error .denied
    | some (.directory entries false) =>
      if step == "." then walkWith root through follow place rest
      else if step == ".." then walkWith root through follow place.dropLast rest
      else if step.utf8ByteSize > nameLimit then .error .nameTooLong
      else
        match (entries.find? fun e => e.1 == step).map Prod.snd with
        | none => if rest.isEmpty then .ok ⟨place ++ [step], false⟩ else .error .notFound
        | some (.link target) =>
          if rest.isEmpty && !through then .ok ⟨place ++ [step], true⟩
          else
            let start := if Path.isAbsolute ⟨target⟩ then [] else place
            follow start (steps target ++ rest)
        | some _ => walkWith root through follow (place ++ [step]) rest
    | _ => .error .notDirectory

/-- Follows steps from a directory, and no more than a number of links. -/
def walk (root : Node) (through : Bool) : Nat → Location → List String → Except Fault Arrival
  | 0 => walkWith root through fun _ _ => .error .tooManyLinks
  | links + 1 => walkWith root through (walk root through links)

/-- Follows a path from the current directory. -/
def arrive (d : Disk) (through : Bool) (p : Path) : Except Fault Arrival :=
  if p.text.isEmpty then .error .notFound
  else if p.text.utf8ByteSize ≥ pathLimit then .error .nameTooLong
  else walk d.root through linkLimit (if p.isAbsolute then [] else d.here) (steps p.text)

/-- The location of the node a path leads to. -/
def locate (d : Disk) (p : Path) : Except Fault Location :=
  (d.arrive true p).bind fun a => if a.present then .ok a.location else .error .notFound

/-- The node a path leads to. -/
def node (d : Disk) (p : Path) : Except Fault Node :=
  (d.locate p).bind fun l =>
    match d.root.at? l with
    | some n => .ok n
    | none => .error .notFound

/-- Whether a path leads to a node. -/
def present (d : Disk) (p : Path) : Bool :=
  (d.locate p).toOption.isSome

/-- Whether a path leads to a node or to a link that leads nowhere. -/
def presentOrLink (d : Disk) (p : Path) : Bool :=
  ((d.arrive true p).toOption.any (·.present)) || ((d.arrive false p).toOption.any (·.present))

/-- Whether a path leads to a file. -/
def isFile (d : Disk) (p : Path) : Bool :=
  match d.node p with
  | .ok (.file _ _) => true
  | _ => false

/-- Whether a path leads to a directory. -/
def isDirectory (d : Disk) (p : Path) : Bool :=
  match d.node p with
  | .ok (.directory _ _) => true
  | _ => false

/-- The path from the root to a location. -/
def pathOf (l : Location) : Path :=
  ⟨"/" ++ "/".intercalate l⟩

/-- The path from the root, without links, to the node a path leads to. -/
def canonical (d : Disk) (p : Path) : Except Fault Path :=
  (d.locate p).map pathOf

end CodeNotes.Disk
