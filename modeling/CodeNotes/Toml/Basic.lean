import CodeNotes.Decimal.Shortest
import CodeNotes.Source.Span

/-!
# Settings documents

A document is a table of keys and items.  An item remembers where it stands, and a table remembers
how it came to be, since that decides whether more keys may be put into it.
-/

namespace CodeNotes.Toml

/-- A key, and where it stands. -/
structure Key where
  name : String
  span : Span
deriving DecidableEq, Repr

/-- A number with a point or an exponent, or one of the two that have no digits. -/
inductive Real where
  | finite (negative : Bool) (value : Decimal)
  | infinite (negative : Bool)
  | undefined
deriving DecidableEq, Repr

/-- A value without parts. -/
inductive Scalar where
  | text (s : String)
  | integer (n : Int)
  | real (r : Real)
  | truth (b : Bool)
  /-- A date, a time, or both. -/
  | moment
deriving DecidableEq, Repr

/-- How a table came to be. -/
inductive Origin where
  /-- By a header of a table inside it. -/
  | implied
  /-- By a key with dots. -/
  | dotted
  /-- By a header of its own. -/
  | header
  /-- By braces, which close it for good. -/
  | inline
deriving DecidableEq, Repr

/-- An item of a document. -/
inductive Item where
  | scalar (value : Scalar) (span : Span)
  | array (items : List Item) (span : Span)
  | table (origin : Origin) (span : Option Span) (entries : List (Key × Item))
  /-- Tables with one name, each under a header of its own. -/
  | tables (elements : List Item)

namespace Item

/-- The entries of a table. -/
def entries : Item → List (Key × Item)
  | table _ _ entries => entries
  | _ => []

/-- Where an item stands, where that can be said.  Tables of one name stand from the first header to
the end of the last table. -/
def span? : Item → Option Span
  | scalar _ span | array _ span => some span
  | table _ span _ => span
  | tables elements =>
    match elements.head?, elements.getLast? with
    | some (table _ (some first) _), some (table _ (some last) _) => some ⟨first.start, last.stop⟩
    | _, _ => none

/-- The item with a name in a table. -/
def get? (t : Item) (name : String) : Option Item :=
  (t.entries.find? fun e => e.1.name == name).map Prod.snd

/-- Replaces the item under the name of a key where it stands, or puts it at the end. -/
def put (t : Item) (key : Key) (item : Item) : Item :=
  match t with
  | table origin span entries =>
    if entries.any fun e => e.1.name == key.name then
      table origin span (entries.map fun e => if e.1.name == key.name then (e.1, item) else e)
    else table origin span (entries ++ [(key, item)])
  | other => other

/-- Removes the item with a name. -/
def erase (t : Item) (name : String) : Item :=
  match t with
  | table origin span entries => table origin span (entries.filter fun e => e.1.name != name)
  | other => other

/-- Changes the table at the end of a path, making tables on the way where there are none.  With
`dotted` set the path is that of a key with dots, which may not lead into a table that has a header.
Of tables with one name, the last one is meant. -/
def update (dotted : Bool) (change : Item → Option Item) : List Key → Item → Option Item
  | [], t => change t
  | key :: path, t =>
    let inside : Option Item :=
      match t.get? key.name with
      | none => update dotted change path (table (if dotted then .dotted else .implied) none [])
      | some (table origin span entries) =>
        if origin == .inline || (dotted && origin == .header) then none
        else update dotted change path (table origin span entries)
      | some (tables elements) =>
        match elements.getLast? with
        | some last =>
          (update dotted change path last).map fun t => tables (elements.dropLast ++ [t])
        | none => none
      | some _ => none
    inside.map (t.put key)

/-- Puts an item under a path of keys with dots between them.  It must not be there yet, and a table
made by keys with dots takes no other ones. -/
def insert (t : Item) (path : List Key) (key : Key) (item : Item) : Option Item :=
  let place (parent : Item) : Option Item :=
    match parent with
    | table origin _ _ =>
      if (origin == .dotted) == path.isEmpty then none
      else if (parent.get? key.name).isSome then none
      else some (parent.put key item)
    | _ => none
  update true place path t

end Item

end CodeNotes.Toml
