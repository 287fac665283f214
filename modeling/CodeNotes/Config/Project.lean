import CodeNotes.Disk.Access
import CodeNotes.Journal
import CodeNotes.Project.Failure
import CodeNotes.Toml.Document

/-!
# Project settings

What a settings document says about a project.  Every setting has a default, and keys that are not
known say nothing.  The rendering options may also be given as an array, in the order of the fields.
Settings are looked at in the order in which they stand, and the first one of the wrong kind is
reported.
-/

namespace CodeNotes

/-- The settings of a project. -/
structure ProjectConfig where
  /-- Patterns of the files to read. -/
  patterns : List String := ["**/*.js"]
  /-- Patterns of the files to skip. -/
  ignore : List String := ["**/node_modules/**"]
  render : RenderOptions := {}
deriving DecidableEq

namespace ProjectConfig

open Toml

/-! ### Items of the right kind -/

/-- The report on an item of the wrong kind; an item without place of its own stands where its key
does. -/
def mismatch (key : Span) (item : Item) (expected : Expected) : Mismatch :=
  ⟨item.phrase, expected, item.span?.getD key⟩

/-- An item that has to be a string. -/
def text (key : Span) : Item → Except Mismatch String
  | .scalar (.text s) _ => .ok s
  | other => .error (mismatch key other .text)

/-- An item that has to be a sequence of strings. -/
def texts (key : Span) : Item → Except Mismatch (List String)
  | .array items _ => items.mapM (text key)
  | .tables elements => elements.mapM (text key)
  | other => .error (mismatch key other .sequence)

/-- Sets the rendering option with a name. -/
def setOption (o : RenderOptions) (entry : Key × Item) : Except Mismatch RenderOptions :=
  let (key, item) := entry
  match key.name with
  | "eol" => (text key.span item).map fun s => { o with eol := s }
  | "title_level" => (text key.span item).map fun s => { o with titleLevel := s }
  | "base" => (text key.span item).map fun s => { o with base := s }
  | _ => .ok o

/-- Rendering options in the order of their fields. -/
def optionsOfList (key : Span) (items : List Item) : Except Mismatch RenderOptions := do
  let given ← (items.take 3).mapM (text key)
  let defaults : RenderOptions := {}
  return ⟨given[0]?.getD defaults.eol, given[1]?.getD defaults.titleLevel,
    given[2]?.getD defaults.base⟩

/-- An item that has to hold rendering options. -/
def options (key : Span) : Item → Except Mismatch RenderOptions
  | .table _ _ entries => entries.foldlM setOption {}
  | .array items _ => optionsOfList key items
  | .tables elements => optionsOfList key elements
  | other => .error (mismatch key other .options)

/-- Sets the project setting with a name. -/
def setField (c : ProjectConfig) (entry : Key × Item) : Except Mismatch ProjectConfig :=
  let (key, item) := entry
  match key.name with
  | "patterns" => (texts key.span item).map fun l => { c with patterns := l }
  | "ignore" => (texts key.span item).map fun l => { c with ignore := l }
  | "render" => (options key.span item).map fun o => { c with render := o }
  | _ => .ok c

/-- The settings a document holds. -/
def ofDocument (document : Item) : Except Mismatch ProjectConfig :=
  document.entries.foldlM setField {}

/-! ### Settings of a text and of a file -/

/-- The settings a text holds. -/
def parse (source : String) : Except ConfigFault ProjectConfig :=
  match Toml.parse? source with
  | none => .error .malformed
  | some document =>
    match ofDocument document with
    | .error m => .error (.mismatch source m)
    | .ok config =>
      match config.render.validate with
      | .error fault => .error (.options fault)
      | .ok () => .ok config

/-- The settings of a file; without file, the defaults. -/
def load (disk : Disk) (path : Path) : Except ConfigFault ProjectConfig :=
  match disk.readText path with
  | .ok source => parse source
  | .error .notFound => .ok {}
  | .error fault => .error (.unreadable path fault)

/-- What is reported when the settings of a file are read. -/
def loadJournal (disk : Disk) (path : Path) : Journal :=
  match disk.readText path with
  | .ok _ => [⟨.debug, "archnotes_core::config", "Loading config from " ++ path.text⟩]
  | .error _ => []

end ProjectConfig

end CodeNotes
