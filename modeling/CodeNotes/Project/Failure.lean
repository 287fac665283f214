import CodeNotes.Config.Options
import CodeNotes.Disk.Basic
import CodeNotes.Pattern.Ignore
import CodeNotes.Pattern.Search
import CodeNotes.Source.Parse
import CodeNotes.Toml.Diagnostic

/-!
# Failures

Why no document could be made.  Every failure has a code that does not change and a text for people;
the text ends with the cause, where there is one.
-/

namespace CodeNotes

/-- Why a pattern cannot be used. -/
inductive PatternFault where
  /-- The pattern is not well formed. -/
  | misuse (m : Pattern.Misuse)
  /-- A directory cannot be listed. -/
  | blocked (b : Pattern.Blocked)
  /-- A pattern of files to skip is not well formed. -/
  | ignore (pattern : String) (flaw : Ignore.Flaw)
  /-- Patterns of files to skip are well formed but cannot be put together. -/
  | refused (reason : String)
  /-- Another reason, in words. -/
  | other (reason : String)
deriving DecidableEq

/-- The wording of a pattern's fault. -/
def PatternFault.message : PatternFault → String
  | .misuse m => m.message
  | .blocked b => b.message
  | .ignore pattern flaw => "error parsing glob '" ++ pattern ++ "': " ++ flaw.message
  | .refused reason => reason
  | .other reason => reason

/-- Why a file cannot be read. -/
inductive ReadFault where
  | disk (fault : Disk.Fault)
  /-- Another reason, in words. -/
  | other (reason : String)
deriving DecidableEq

/-- The wording of a file's fault. -/
def ReadFault.message : ReadFault → String
  | .disk fault => fault.message
  | .other reason => reason

/-- Why settings cannot be used. -/
inductive ConfigFault where
  /-- The text is no settings document. -/
  | malformed
  /-- A value is of the wrong kind. -/
  | mismatch (source : String) (m : Toml.Mismatch)
  | options (fault : RenderOptions.Fault)
  /-- The file with the settings cannot be read. -/
  | unreadable (path : Path) (fault : Disk.Fault)
deriving DecidableEq

/-- The wording of a settings fault. -/
def ConfigFault.message : ConfigFault → String
  | .malformed => "TOML parse error"
  | .mismatch source m => m.report source
  | .options fault => fault.message
  | .unreadable path fault => path.text ++ ": " ++ fault.message

/-- Why no document could be made. -/
inductive Failure where
  | pattern (pattern : String) (fault : PatternFault)
  | file (path : Path) (fault : ReadFault)
  | parse (path : Path) (fault : Source.Fault)
  | config (fault : ConfigFault)
deriving DecidableEq

namespace Failure

/-- The code of a failure. -/
def code : Failure → String
  | .pattern _ _ => "E_PATTERN_FAILURE"
  | .file _ _ => "E_FILE_FAILURE"
  | .parse _ _ => "E_FILE_PARSE_FAILURE"
  | .config _ => "E_BAD_CONFIG"

/-- The wording of the cause that a failure names apart from itself. -/
def cause? : Failure → Option String
  | .pattern _ fault => some fault.message
  | .file _ fault => some fault.message
  | .parse _ fault => some fault.message
  | .config _ => none

/-- The wording of a failure. -/
def message : Failure → String
  | .pattern given fault => "Could not resolve pattern \x60" ++ given ++ "\x60: " ++ fault.message
  | .file path fault => "Could not read \x60" ++ path.text ++ "\x60: " ++ fault.message
  | .parse path fault => "Could not parse \x60" ++ path.text ++ "\x60: " ++ fault.message
  | .config fault => "Invalid configuration: " ++ fault.message

end Failure

end CodeNotes
