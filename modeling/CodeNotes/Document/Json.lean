import CodeNotes.Note.Basic

/-!
# Notes as data

Notes in the given order as a JSON array, one field a line, each level set in by two spaces.
Control characters are written as escapes, and everything else as it is.
-/

namespace CodeNotes.Document

/-- A hexadecimal digit. -/
def hexDigit (n : Nat) : Char :=
  Nat.digitChar n

/-- A character inside a JSON string. -/
def jsonChar (c : Char) : List Char :=
  if c == '"' || c == '\\' then ['\\', c]
  else if c == '\n' then ['\\', 'n']
  else if c == '\r' then ['\\', 'r']
  else if c == '\t' then ['\\', 't']
  else if c == '\x08' then ['\\', 'b']
  else if c == '\x0c' then ['\\', 'f']
  else if c.toNat < 0x20 then
    ['\\', 'u', '0', '0', hexDigit (c.toNat / 16), hexDigit (c.toNat % 16)]
  else [c]

/-- A JSON string. -/
def jsonText (s : String) : String :=
  String.ofList ('"' :: (s.toList.flatMap jsonChar ++ ['"']))

/-- The start of a line at a level. -/
def jsonIndent (level : Nat) : String :=
  "\n" ++ String.ofList (List.replicate (2 * level) ' ')

/-- Items at a level, between brackets; no items leave nothing between them. -/
def jsonBlock (start stop : String) (level : Nat) (items : List String) : String :=
  if items.isEmpty then start ++ stop
  else
    start ++ ",".intercalate (items.map (jsonIndent (level + 1) ++ ·)) ++ jsonIndent level ++ stop

/-- Fields at a level. -/
def jsonObject (level : Nat) (fields : List (String × String)) : String :=
  jsonBlock "\x7b" "\x7d" level (fields.map fun f => jsonText f.1 ++ ": " ++ f.2)

/-- A note inside the array. -/
def jsonNote (n : Note) : String :=
  jsonObject 1
    [("id", jsonText n.id.display), ("title", jsonText n.title), ("body", jsonText n.body),
      ("source_path", jsonText n.path.text),
      ("source_range",
        jsonObject 2 [("start_line", n.lines.first.repr), ("end_line", n.lines.last.repr)])]

/-- Notes as data, in the given order. -/
def json (notes : List Note) : String :=
  jsonBlock "[" "]" 0 (notes.map jsonNote) ++ "\n"

end CodeNotes.Document
