import CodeNotes.Command.Arguments
import CodeNotes.Command.Filter
import CodeNotes.Config.Project
import CodeNotes.Document.Json
import CodeNotes.Project.Build
import CodeNotes.Text.Quoted

/-!
# Runs

A run takes a command line and a disk to an outcome: an exit status, what is printed, what is
reported, and the disk afterwards.  A run that fails prints no document and leaves the disk as it
was; a run that succeeds either prints the document or writes it to one file.
-/

namespace CodeNotes.Command

/-- The name of the program and of what it reports about itself. -/
def program : String := "archnotes"

/-- The version of the program. -/
def versionNumber : String := "0.1.0"

/-- The name of the file with the settings of a project. -/
def configFileName : String := "archnotes.toml"

/-! ### Failures -/

/-- Why a run fails. -/
inductive RunFault where
  /-- There is no such directory to work in. -/
  | directory (given : Path) (fault : Disk.Fault)
  /-- There is no such file with settings. -/
  | noConfig (path : Path)
  /-- The settings in a file cannot be used. -/
  | config (path : Path) (fault : ConfigFault)
  /-- No document could be made. -/
  | project (failure : Failure)
  /-- The document could not be written. -/
  | output (path : Path) (fault : Disk.Fault)
deriving DecidableEq

/-- The code of a fault that has one. -/
def RunFault.code? : RunFault → Option String
  | .config _ fault => some (Failure.config fault).code
  | .project failure => some failure.code
  | _ => none

/-- The wording of a fault, followed by its cause. -/
def RunFault.message : RunFault → String
  | .directory given fault => "Invalid working directory " ++ given.text ++ ": " ++ fault.message
  | .noConfig path => "Config file " ++ path.text ++ " not found"
  | .config path fault =>
    "Failed to load " ++ path.text ++ ": " ++ (Failure.config fault).message
  | .project failure => failure.message ++ (failure.cause?.elim "" fun cause => ": " ++ cause)
  | .output path fault => "Failed to write " ++ path.text ++ ": " ++ fault.message

/-- What is printed about a fault. -/
def RunFault.report (f : RunFault) : String :=
  "error" ++ (f.code?.elim "" fun code => " [" ++ code ++ "]") ++ ": " ++ f.message ++ "\n"

/-! ### Settings -/

/-- The directory of the project, without links and as seen from the root. -/
def directory (disk : Disk) (a : Arguments) : Except RunFault Path :=
  let given := a.cwd.getD (Disk.pathOf disk.here)
  match disk.canonical given with
  | .ok dir => .ok dir
  | .error fault => .error (.directory given fault)

/-- The file with the settings: one that is asked for has to be there. -/
def configPath (disk : Disk) (a : Arguments) (dir : Path) : Except RunFault Path :=
  match a.config with
  | none => .ok (dir.push configFileName)
  | some path => if disk.present path then .ok path else .error (.noConfig path)

/-- Settings of a file with the arguments layered on top, each setting by itself. -/
def layered (a : Arguments) (c : ProjectConfig) : ProjectConfig where
  patterns := if a.patterns.isEmpty then c.patterns else a.patterns
  ignore := if a.ignore.isEmpty then c.ignore else a.ignore
  render :=
    { eol := a.eol.getD c.render.eol
      titleLevel := a.titleLevel.getD c.render.titleLevel
      base := a.base.getD c.render.base }

/-- The settings of a run. -/
def settings (disk : Disk) (a : Arguments) (dir : Path) : Except RunFault ProjectConfig :=
  (configPath disk a dir).bind fun path =>
    match ProjectConfig.load disk path with
    | .ok config => .ok (layered a config)
    | .error fault => .error (.config path fault)

/-! ### The document -/

/-- The document of a project in the form asked for. -/
def document [Ignore.Engine] (disk : Disk) (format : Format) (dir : Path) (c : ProjectConfig) :
    Except Failure String :=
  let files := FileSource.ofDisk disk
  match format with
  | .markdown => Project.build files c.render dir c.patterns c.ignore
  | .json => (Project.notes files c.render dir c.patterns c.ignore).map Document.json

/-- The document that arguments ask for. -/
def make [Ignore.Engine] (disk : Disk) (a : Arguments) : Except RunFault String :=
  (directory disk a).bind fun dir =>
    (settings disk a dir).bind fun config =>
      match document disk (a.format.getD .markdown) dir config with
      | .ok text => .ok text
      | .error failure => .error (.project failure)

/-- What a run that succeeds leaves: the disk and what is printed. -/
structure Delivery where
  disk : Disk
  stdout : String

/-- Prints a document, or writes it to the file asked for. -/
def deliver (disk : Disk) (output : Option Path) (text : String) : Except RunFault Delivery :=
  match output with
  | none => .ok ⟨disk, text⟩
  | some path =>
    match disk.writeText path text with
    | .ok disk => .ok ⟨disk, ""⟩
    | .error fault => .error (.output path fault)

/-- Makes a document and delivers it. -/
def produce [Ignore.Engine] (disk : Disk) (a : Arguments) : Except RunFault Delivery :=
  (make disk a).bind (deliver disk a.output)

/-! ### Reports -/

/-- What is reported before the files are looked for. -/
def scanning (dir : Path) (c : ProjectConfig) : Record :=
  ⟨.debug, program,
    "Scanning " ++ dir.text ++ " with patterns " ++ Text.quotedList c.patterns ++ " (ignoring " ++
      Text.quotedList c.ignore ++ ")"⟩

/-- What is reported when a document is made. -/
def journal [Ignore.Engine] (disk : Disk) (a : Arguments) : Journal :=
  match directory disk a with
  | .error _ => []
  | .ok dir =>
    (match configPath disk a dir with
      | .error _ => []
      | .ok path => ProjectConfig.loadJournal disk path) ++
    match settings disk a dir with
    | .error _ => []
    | .ok c =>
      scanning dir c ::
        Project.journal (FileSource.ofDisk disk) c.render dir c.patterns c.ignore

/-- The filter that is used when none is given. -/
def defaultFilter : String := "warn"

/-- The filter of a run, with what is printed about the parts of it that make no sense.  A switch
replaces what the filter says about all targets. -/
def filter (given : Option String) (a : Arguments) : Filter × String :=
  let (filter, flaws) := Filter.read (given.getD defaultFilter)
  let warnings := flaws.map fun flaw =>
    "warning: invalid logging spec " ++ flaw ++ ", ignoring it\n"
  let filter :=
    if .quiet ∈ a.switches then filter.add ⟨none, some .error⟩
    else if .verbose ∈ a.switches then filter.add ⟨none, some .debug⟩
    else filter
  (filter, String.join warnings)

/-! ### Running -/

/-- What a run comes to. -/
structure Outcome where
  status : Nat
  stdout : String
  stderr : String
  /-- The records that are shown. -/
  journal : Journal
  disk : Disk

/-- How the program is used. -/
def usage : String := "Usage: " ++ program ++ " [OPTIONS] [PATTERNS]..."

/-- What can be given, one argument a line. -/
def helpText : String :=
  "Build an architecture document from notes kept in code comments\n\n" ++ usage ++ "\n\n" ++
    "Arguments:\n" ++
    "  [PATTERNS]...  Patterns of files to scan\n\n" ++
    "Options:\n" ++
    "      --cwd <CWD>                  Directory patterns and links are relative to\n" ++
    "      --ignore <PATTERN>           Pattern of files to skip; repeat to add more\n" ++
    "      --config <CONFIG>            Config file\n" ++
    "      --base <BASE>                Prefix of context links\n" ++
    "      --title-level <TITLE_LEVEL>  Heading marker of the document title\n" ++
    "      --eol <EOL>                  Line ending: lf, crlf or native\n" ++
    "      --format <FORMAT>            Output format: markdown or json\n" ++
    "  -o, --output <OUTPUT>            Write to this file instead of stdout\n" ++
    "  -v, --verbose                    Enable verbose logging\n" ++
    "  -q, --quiet                      Quiet mode: log only errors\n" ++
    "  -h, --help                       Print help\n" ++
    "  -V, --version                    Print version\n"

/-- What is printed on request. -/
def Request.answer : Request → String
  | .version => program ++ " " ++ versionNumber ++ "\n"
  | .help => helpText

/-- What is printed about a misuse; its first line says what it is. -/
def Misuse.report (m : Misuse) : String :=
  "error: " ++ m.message ++ "\n\n" ++ usage ++ "\n\nFor more information, try '--help'.\n"

/-- Runs the program: `filterText` is the filter given in the surroundings, if any. -/
def run [Ignore.Engine] (disk : Disk) (filterText : Option String) (arguments : List String) :
    Outcome :=
  match parse arguments with
  | .error m => ⟨2, "", m.report, [], disk⟩
  | .ok (.request r) => ⟨0, r.answer, "", [], disk⟩
  | .ok (.document a) =>
    let (filter, warnings) := filter filterText a
    let shown := filter.select (journal disk a)
    match produce disk a with
    | .ok d => ⟨0, d.stdout, warnings, shown, d.disk⟩
    | .error fault => ⟨1, "", warnings ++ fault.report, shown, disk⟩

end CodeNotes.Command
