import CodeNotes.Text.Space

/-!
# Note ids

An id is the dotted position of a note in the outline, such as `1.3.2`: one to eight components,
each a 64-bit number.  `NoteId.parse` reads the dotted form (leading zeros are allowed and do not
count) and `NoteId.display` writes it.
-/

namespace CodeNotes

/-- The deepest outline level an id may have. -/
def NoteId.maxDepth : Nat := 8

/-- The dotted position of a note in the outline. -/
structure NoteId where
  components : List UInt64
  /-- An id has at least one level. -/
  ne_nil : components ≠ []
  /-- An id has at most `NoteId.maxDepth` levels. -/
  depth_le : components.length ≤ NoteId.maxDepth
deriving DecidableEq

/-- Why a text is not an id: it is the text itself that is reported. -/
structure NoteId.Malformed where
  text : String
deriving DecidableEq

namespace NoteId

/-- The wording of a malformed id. -/
def Malformed.message (e : Malformed) : String :=
  "Invalid note id `" ++ e.text ++ "`"

/-- The number of outline levels. -/
def depth (id : NoteId) : Nat :=
  id.components.length

/-- The value of a string of decimal digits. -/
def digitsValue (cs : List Char) : Nat :=
  cs.foldl (fun n c => 10 * n + (c.toNat - '0'.toNat)) 0

/-- One component: a non-empty string of digits whose value fits in 64 bits. -/
def component? (cs : List Char) : Option UInt64 :=
  if cs.isEmpty || !cs.all Text.isDigit then none
  else
    let n := digitsValue cs
    if n < UInt64.size then some (UInt64.ofNat n) else none

/-- The components of a dotted text, whatever their number. -/
def components? (cs : List Char) : Option (List UInt64) :=
  (cs.splitOn '.').mapM component?

/-- The id with these components, if their number is right. -/
def ofComponents? (l : List UInt64) : Option NoteId :=
  if h : l ≠ [] ∧ l.length ≤ maxDepth then some ⟨l, h.1, h.2⟩ else none

/-- Reads a dotted id. -/
def parse (s : String) : Except Malformed NoteId :=
  match (components? s.toList).bind ofComponents? with
  | some id => .ok id
  | none => .error ⟨s⟩

/-- Writes components in decimal, separated by dots. -/
def dotted (l : List UInt64) : String :=
  ".".intercalate (l.map fun n => n.toNat.repr)

/-- Writes an id. -/
def display (id : NoteId) : String :=
  dotted id.components

/-- Compares components one by one as numbers; where one list is a strict prefix of the other, the
prefix comes first. -/
def compareComponents : List UInt64 → List UInt64 → Ordering
  | [], [] => .eq
  | [], _ :: _ => .lt
  | _ :: _, [] => .gt
  | a :: as, b :: bs =>
    match compare a b with
    | .eq => compareComponents as bs
    | o => o

/-- The outline order of ids. -/
instance : Ord NoteId where
  compare a b := compareComponents a.components b.components

end NoteId

end CodeNotes
