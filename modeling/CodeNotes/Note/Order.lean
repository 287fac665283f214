import CodeNotes.Note.Basic

/-!
# Outline order

Notes are ordered by id alone, and the sort is stable: notes that share an id keep the order in
which they were found.
-/

namespace CodeNotes.Note

/-- The outline order of notes. -/
def order (a b : Note) : Ordering :=
  compare a.id b.id

/-- Sorts notes by id, keeping the given order among equal ids. -/
def sort (notes : List Note) : List Note :=
  notes.mergeSort fun a b => order a b != .gt

end CodeNotes.Note
