import CodeNotes.Toml.Scalar

/-!
# Reading documents

A document is read line by line.  The keys of a table are gathered until the next header, and the
table is then put where its header says.
-/

namespace CodeNotes.Toml

/-- How deep values and keys may be nested, plus one. -/
def depthLimit : Nat := 80

/-! ### Keys -/

/-- A character of a key without quotes. -/
def isBareKey (c : Char) : Bool :=
  c.isAlphanum || c == '_' || c == '-'

/-- A single key. -/
def simpleKey? (c : Cursor) : Option (Key × Cursor) :=
  let made (name : String) (after : Cursor) : Key × Cursor :=
    (⟨name, ⟨c.offset, after.offset⟩⟩, after)
  match lineString? c with
  | some (name, after) => some (made name after)
  | none =>
    let (name, after) := c.span isBareKey
    if name.isEmpty then none else some (made (String.ofList name) after)

/-- Keys with dots between them, first to last. -/
def keys? : Nat → Cursor → Option (List Key × Cursor)
  | 0, _ => none
  | fuel + 1, c =>
    (simpleKey? c.skipGap).bind fun (key, c) =>
      let c := c.skipGap
      match c.eat? '.' with
      | some c => (keys? fuel c).map fun (rest, c) => (key :: rest, c)
      | none => some ([key], c)

/-- A key with dots: the path to it and the last part. -/
def dottedKey? (c : Cursor) : Option (List Key × Key × Cursor) :=
  (keys? (depthLimit - 1) c).bind fun (keys, c) =>
    keys.getLast?.map fun last => (keys.dropLast, last, c)

/-! ### Values -/

mutual

/-- A value.  The depth says how many more brackets may be opened. -/
def value? : Nat → Nat → Cursor → Option (Item × Cursor)
  | 0, _, _ => none
  | fuel + 1, depth, c =>
    match c.peek? with
    | some '[' =>
      if depth ≤ 1 then none
      else
        (elements? fuel (depth - 1) (c.advance 1) []).map fun (items, after) =>
          (.array items ⟨c.offset, after.offset⟩, after)
    | some '\x7b' =>
      if depth ≤ 1 then none
      else
        (pairs? fuel (depth - 1) (c.advance 1).skipGap (.table .inline none []) true).map
          fun (table, after) =>
            (.table .inline (some ⟨c.offset, after.offset⟩) table.entries, after)
    | _ => (scalar? c).map fun (value, after) => (.scalar value ⟨c.offset, after.offset⟩, after)

/-- The elements of an array and its closing bracket. -/
def elements? : Nat → Nat → Cursor → List Item → Option (List Item × Cursor)
  | 0, _, _, _ => none
  | fuel + 1, depth, c, done =>
    let c := c.skipAll
    match c.eat? ']' with
    | some c => some (done.reverse, c)
    | none =>
      (value? fuel depth c).bind fun (item, c) =>
        let c := c.skipAll
        match c.eat? ',', c.eat? ']' with
        | some c, _ => elements? fuel depth c (item :: done)
        | none, some c => some ((item :: done).reverse, c)
        | none, none => none

/-- The pairs of a table in braces and its closing brace.  No comma stands before the brace. -/
def pairs? : Nat → Nat → Cursor → Item → Bool → Option (Item × Cursor)
  | 0, _, _, _, _ => none
  | fuel + 1, depth, c, table, mayEnd =>
    match if mayEnd then c.eat? '\x7d' else none with
    | some c => some (table, c)
    | none =>
      (dottedKey? c).bind fun (path, key, c) =>
        (c.eat? '=').bind fun c =>
          (value? fuel depth c.skipGap).bind fun (item, c) =>
            (table.insert path key item).bind fun table =>
              let c := c.skipGap
              match c.eat? ',', c.eat? '\x7d' with
              | some c, _ => pairs? fuel depth c.skipGap table false
              | none, some c => some (table, c)
              | none, none => none

end

/-! ### Lines -/

/-- A document that is being read: what is finished, and the table whose keys are being gathered
with the path of its header. -/
structure Draft where
  root : Item := .table .header none []
  current : Item := .table .header none []
  path : List Key := []
  inList : Bool := false

namespace Draft

/-- Puts the table that is being gathered where its header says. -/
def finish (d : Draft) : Option Item :=
  match d.path.getLast? with
  | none => some d.current
  | some key =>
    let place (parent : Item) : Option Item :=
      match parent.get? key.name with
      | none => some (parent.put key (if d.inList then .tables [d.current] else d.current))
      | some (.tables elements) =>
        if d.inList then some (parent.put key (.tables (elements ++ [d.current]))) else none
      | some _ => none
    Item.update false place d.path.dropLast d.root

/-- Starts a table with a header.  A table that was only implied so far keeps what is in it. -/
def startTable (d : Draft) (path : List Key) (key : Key) (span : Span) : Option Draft :=
  d.finish.bind fun root =>
    (impliedEntries root path key).bind fun entries =>
      (Item.update false (fun parent => some (parent.erase key.name)) path root).map fun root =>
        ⟨root, .table .header (some span) entries, path ++ [key], false⟩
where
  /-- What an implied table at the end of a path holds.  There is none of a table that is there in
  its own right. -/
  impliedEntries : Item → List Key → Key → Option (List (Key × Item))
    | t, [], key =>
      match t.get? key.name with
      | none => some []
      | some (.table .implied _ entries) => some entries
      | some _ => none
    | t, k :: path, key =>
      match t.get? k.name with
      | none => some []
      | some (.tables elements) =>
        match elements.getLast? with
        | some last => impliedEntries last path key
        | none => none
      | some inner => impliedEntries inner path key

/-- Starts one more table with a name that several tables share. -/
def startElement (d : Draft) (path : List Key) (key : Key) (span : Span) : Option Draft :=
  d.finish.bind fun root =>
    let place (parent : Item) : Option Item :=
      match parent.get? key.name with
      | none => some (parent.put key (.tables []))
      | some (.tables _) => some parent
      | some _ => none
    (Item.update false place path root).map fun root =>
      ⟨root, .table .header (some span) [], path ++ [key], true⟩

/-- Puts a value into the table that is being gathered, which then reaches to the value's end. -/
def add (d : Draft) (path : List Key) (key : Key) (item : Item) : Option Draft :=
  (d.current.insert path key item).map fun current =>
    let current :=
      match current, item.span? with
      | .table origin (some span) entries, some inner =>
        .table origin (some ⟨span.start, inner.stop⟩) entries
      | other, _ => other
    { d with current }

end Draft

/-- Reads a header from its opening bracket. -/
def header? (d : Draft) (c : Cursor) : Option (Draft × Cursor) :=
  match c.eatAll? ['[', '['] with
  | some inner => do
    let (path, key, after) ← dottedKey? inner
    let after ← after.eatAll? [']', ']']
    let next ← after.endLine?
    let d ← d.startElement path key ⟨c.offset, after.offset⟩
    return (d, next)
  | none => do
    let (path, key, after) ← dottedKey? (c.advance 1)
    let after ← after.eat? ']'
    let next ← after.endLine?
    let d ← d.startTable path key ⟨c.offset, after.offset⟩
    return (d, next)

/-- Reads a key, an equals sign and a value. -/
def setting? (d : Draft) (c : Cursor) : Option (Draft × Cursor) := do
  let (path, key, c) ← dottedKey? c
  let c ← c.eat? '='
  let c := c.skipGap
  let (item, c) ← value? (2 * c.rest.length + 2) depthLimit c
  let c ← c.endLine?
  let d ← d.add path key item
  return (d, c)

/-- Reads the lines of a document. -/
def lines? : Nat → Draft → Cursor → Option Draft
  | 0, _, _ => none
  | fuel + 1, d, c =>
    let c := c.skipGap
    match c.peek? with
    | none => some d
    | some '#' => c.endLine?.bind (lines? fuel d)
    | some '[' => (header? d c).bind fun (d, c) => lines? fuel d c
    | some x =>
      if x == '\n' || x == '\r' then c.eatBreak?.bind (lines? fuel d)
      else (setting? d c).bind fun (d, c) => lines? fuel d c

/-- Reads a document, which may start with a byte order mark. -/
def parse? (text : String) : Option Item :=
  let c : Cursor := ⟨0, text.toList⟩
  let c := (c.eat? '\uFEFF').getD c
  (lines? (c.rest.length + 1) {} c).bind Draft.finish

end CodeNotes.Toml
