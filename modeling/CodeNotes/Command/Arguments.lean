import CodeNotes.Path.Basic

/-!
# Command line arguments

An argument is one or more *words*: a setting, which takes a value, a switch, a request, or plain
text.  Plain text is the value of the setting in front of it, or else a pattern.  After `--` all
arguments are patterns.

Words are read from left to right, and the first misuse ends the reading.  A value that stands apart
from its setting is looked at only when the next word is known to make sense, and two switches that
exclude each other are found last.
-/

namespace CodeNotes.Command

/-! ### What can be given -/

/-- The form of the result. -/
inductive Format where
  | markdown
  | json
deriving DecidableEq, Repr

/-- The form with a name. -/
def Format.named? : String → Option Format
  | "markdown" => some .markdown
  | "json" => some .json
  | _ => none

/-- The line separator with a name. -/
def lineSeparator? : String → Option String
  | "lf" => some "\n"
  | "crlf" => some "\r\n"
  | "native" => some "\n"
  | _ => none

/-- Arguments that take a value. -/
inductive Setting where
  | cwd
  | ignore
  | config
  | base
  | titleLevel
  | eol
  | format
  | output
deriving DecidableEq, Repr

/-- Arguments that are given or not. -/
inductive Switch where
  | verbose
  | quiet
deriving DecidableEq, Repr

/-- Arguments that ask for something else than a document. -/
inductive Request where
  | version
  | help
deriving DecidableEq, Repr

/-- An argument with a name. -/
inductive Flag where
  | setting (s : Setting)
  | switch (s : Switch)
  | request (r : Request)
deriving DecidableEq, Repr

/-- The name of a setting. -/
def Setting.name : Setting → String
  | cwd => "cwd"
  | ignore => "ignore"
  | config => "config"
  | base => "base"
  | titleLevel => "title-level"
  | eol => "eol"
  | format => "format"
  | output => "output"

/-- What stands for the value of a setting in messages. -/
def Setting.placeholder : Setting → String
  | cwd => "CWD"
  | ignore => "PATTERN"
  | config => "CONFIG"
  | base => "BASE"
  | titleLevel => "TITLE_LEVEL"
  | eol => "EOL"
  | format => "FORMAT"
  | output => "OUTPUT"

/-- The name of an argument. -/
def Flag.name : Flag → String
  | setting s => s.name
  | switch .verbose => "verbose"
  | switch .quiet => "quiet"
  | request .version => "version"
  | request .help => "help"

/-- An argument as it is shown in messages. -/
def Flag.shown : Flag → String
  | setting s => "--" ++ s.name ++ " <" ++ s.placeholder ++ ">"
  | other => "--" ++ other.name

/-- All arguments with a name. -/
def flags : List Flag :=
  [.setting .cwd, .setting .ignore, .setting .config, .setting .base, .setting .titleLevel,
    .setting .eol, .setting .format, .setting .output, .switch .verbose, .switch .quiet,
    .request .version, .request .help]

/-- The argument with a name. -/
def Flag.named? (name : String) : Option Flag :=
  flags.find? fun f => f.name == name

/-- The argument with a name of one letter. -/
def Flag.lettered? : Char → Option Flag
  | 'o' => some (.setting .output)
  | 'v' => some (.switch .verbose)
  | 'q' => some (.switch .quiet)
  | 'V' => some (.request .version)
  | 'h' => some (.request .help)
  | _ => none

/-- What was given. -/
structure Arguments where
  /-- Patterns of the files to read. -/
  patterns : List String := []
  /-- Patterns of the files to skip. -/
  ignore : List String := []
  /-- The directory of the project. -/
  cwd : Option Path := none
  /-- The file with the settings of the project. -/
  config : Option Path := none
  base : Option String := none
  titleLevel : Option String := none
  eol : Option String := none
  format : Option Format := none
  /-- The file for the result. -/
  output : Option Path := none
  /-- The switches in the order in which they were given. -/
  switches : List Switch := []
deriving DecidableEq

/-- What a command line asks for. -/
inductive Order where
  | document (given : Arguments)
  | request (r : Request)
deriving DecidableEq

/-! ### Misuse -/

/-- Why a command line makes no sense. -/
inductive Misuse where
  /-- There is no such argument. -/
  | unexpected (word : String)
  /-- A switch or request has a value. -/
  | surplus (flag : Flag) (value : String)
  | missing (s : Setting)
  | invalid (s : Setting) (value : String)
  | repeated (flag : Flag)
  | together (first second : Flag)
deriving DecidableEq

/-- The wording of a misuse. -/
def Misuse.message : Misuse → String
  | .unexpected word => "unexpected argument '" ++ word ++ "' found"
  | .surplus flag value =>
    "unexpected value '" ++ value ++ "' for '" ++ flag.shown ++
      "' found; no more were expected"
  | .missing s =>
    "a value is required for '" ++ (Flag.setting s).shown ++ "' but none was supplied"
  | .invalid s value =>
    "invalid value '" ++ value ++ "' for '" ++ (Flag.setting s).shown ++ "'"
  | .repeated flag => "the argument '" ++ flag.shown ++ "' cannot be used multiple times"
  | .together first second =>
    "the argument '" ++ first.shown ++ "' cannot be used with '" ++ second.shown ++ "'"

/-! ### Words -/

/-- What an argument says. -/
inductive Word where
  /-- A value or a pattern. -/
  | text (s : String)
  /-- A pattern and no value. -/
  | pattern (s : String)
  | flag (f : Flag)
  /-- A setting together with its value. -/
  | attached (s : Setting) (value : String)
  /-- No argument at all. -/
  | misuse (m : Misuse)
deriving DecidableEq

/-- The word of an argument that starts with `--`, without the dashes. -/
def longWord (cs : List Char) : Word :=
  let name := String.ofList (cs.takeWhile (· != '='))
  let value? := (cs.dropWhile (· != '=')).tail? |>.map String.ofList
  match Flag.named? name, value? with
  | none, _ => .misuse (.unexpected ("--" ++ name))
  | some flag, none => .flag flag
  | some (.setting s), some value => .attached s value
  | some flag, some value => .misuse (.surplus flag value)

/-- The words of an argument that starts with one dash, without the dash.  What follows the letter
of a setting is its value, with or without `=` in between. -/
def shortWords : List Char → List Word
  | [] => []
  | c :: rest =>
    match Flag.lettered? c with
    | none => [.misuse (.unexpected (String.ofList ['-', c]))]
    | some (.setting s) =>
      match rest with
      | [] => [.flag (.setting s)]
      | '=' :: value => [.attached s (String.ofList value)]
      | value => [.attached s (String.ofList value)]
    | some flag => .flag flag :: shortWords rest

/-- The words of an argument other than `--`. -/
def wordsOf (argument : String) : List Word :=
  match argument.toList with
  | '-' :: '-' :: cs => [longWord cs]
  | '-' :: c :: cs => shortWords (c :: cs)
  | _ => [.text argument]

/-- The words of a command line. -/
def words : List String → List Word
  | [] => []
  | "--" :: rest => rest.map .pattern
  | argument :: rest => wordsOf argument ++ words rest

/-! ### Reading -/

/-- Sets a place that may be set only once. -/
def once {α : Type} (s : Setting) (old : Option α) (new : Except Misuse α) :
    Except Misuse (Option α) :=
  match old with
  | some _ => .error (.repeated (.setting s))
  | none => new.map some

/-- A path is not empty. -/
def pathValue (s : Setting) (value : String) : Except Misuse Path :=
  if value.isEmpty then .error (.missing s) else .ok ⟨value⟩

/-- A value that has to be one of several names. -/
def namedValue {α : Type} (s : Setting) (value : String) (meaning : Option α) : Except Misuse α :=
  match meaning with
  | some a => .ok a
  | none => if value.isEmpty then .error (.missing s) else .error (.invalid s value)

/-- Gives a setting a value. -/
def Arguments.set (a : Arguments) (s : Setting) (value : String) : Except Misuse Arguments :=
  match s with
  | .ignore => .ok { a with ignore := a.ignore ++ [value] }
  | .cwd => (once s a.cwd (pathValue s value)).map fun v => { a with cwd := v }
  | .config => (once s a.config (pathValue s value)).map fun v => { a with config := v }
  | .base => (once s a.base (.ok value)).map fun v => { a with base := v }
  | .titleLevel => (once s a.titleLevel (.ok value)).map fun v => { a with titleLevel := v }
  | .eol =>
    (once s a.eol (namedValue s value (lineSeparator? value))).map fun v => { a with eol := v }
  | .format =>
    (once s a.format (namedValue s value (Format.named? value))).map fun v => { a with format := v }
  | .output => (once s a.output (pathValue s value)).map fun v => { a with output := v }

/-- Turns a switch on. -/
def Arguments.turnOn (a : Arguments) (s : Switch) : Except Misuse Arguments :=
  if s ∈ a.switches then .error (.repeated (.switch s))
  else .ok { a with switches := a.switches ++ [s] }

/-- Adds a pattern. -/
def Arguments.addPattern (a : Arguments) (pattern : String) : Arguments :=
  { a with patterns := a.patterns ++ [pattern] }

/-- The switches exclude each other. -/
def Arguments.checked (a : Arguments) : Except Misuse Arguments :=
  match a.switches with
  | first :: second :: _ => .error (.together (.switch first) (.switch second))
  | _ => .ok a

/-- Reads words, given what has been read before. -/
def read (a : Arguments) : List Word → Except Misuse Order
  | [] => a.checked.map .document
  | .misuse m :: _ => .error m
  | .text s :: rest => read (a.addPattern s) rest
  | .pattern s :: rest => read (a.addPattern s) rest
  | .attached s value :: rest => (a.set s value).bind fun a => read a rest
  | .flag (.request r) :: _ => .ok (.request r)
  | .flag (.switch s) :: rest => (a.turnOn s).bind fun a => read a rest
  | .flag (.setting _) :: .misuse m :: _ => .error m
  | .flag (.setting _) :: .text _ :: .misuse m :: _ => .error m
  | .flag (.setting s) :: .text value :: rest => (a.set s value).bind fun a => read a rest
  | .flag (.setting s) :: _ => .error (.missing s)

/-- Reads a command line. -/
def parse (arguments : List String) : Except Misuse Order :=
  read {} (words arguments)

end CodeNotes.Command
