/-!
# The journal

What is reported while working, apart from the result: one record a line, with its level and the
part of the program it comes from.
-/

namespace CodeNotes

/-- How much a record matters. -/
inductive Level where
  | error
  | warn
  | info
  | debug
  | trace
deriving DecidableEq, Repr

namespace Level

/-- The name of a level. -/
def name : Level → String
  | error => "ERROR"
  | warn => "WARN"
  | info => "INFO"
  | debug => "DEBUG"
  | trace => "TRACE"

/-- Levels by how much is reported: the higher, the more. -/
def rank : Level → Nat
  | error => 1
  | warn => 2
  | info => 3
  | debug => 4
  | trace => 5

end Level

/-- A record. -/
structure Record where
  level : Level
  /-- The part of the program that reports. -/
  target : String
  text : String
deriving DecidableEq, Repr

/-- A record on a line. -/
def Record.line (r : Record) : String :=
  r.level.name ++ " " ++ r.target ++ ": " ++ r.text

/-- Records in the order in which they were made. -/
abbrev Journal := List Record

end CodeNotes
