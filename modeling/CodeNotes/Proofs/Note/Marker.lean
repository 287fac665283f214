import CodeNotes.Proofs.Note.Grammar

/-!
# Markers read back

`Marker.line` writes the line that makes a comment a note.  A comment made of white space, such a
line, and text that starts on a line of its own has the layout of a marker (`Layout.ofLine`), so it
is read as the note that was written, the title and the text being trimmed (`parse?_line`).
-/

namespace CodeNotes.Marker

/-- The line a note with this id and title starts with. -/
def line (id : NoteId) (title : String) : String :=
  "Architecture Note #" ++ id.display ++ ": " ++ title

theorem toList_line (id : NoteId) (title : String) :
    (line id title).toList = opening ++ (id.display.toList ++ ':' :: ' ' :: title.toList) := by
  unfold line opening
  rw [String.toList_append, String.toList_append, String.toList_append, List.append_assoc,
    List.append_assoc]
  rfl

/-! ### The layout of a written marker -/

theorem isIdChar_of_mem_display {id : NoteId} {c : Char} (h : c ∈ id.display.toList) :
    isIdChar c = true := by
  rw [NoteId.display, NoteId.toList_dotted] at h
  exact isIdChar_of_mem_joined (fun _ hg => NoteId.isGroup_of_mem_groups hg) h

/-- The layout of white space, a written marker, and what follows on a line of its own. -/
def Layout.ofLine {lead tail : List Char} (id : NoteId) (title : String)
    (hlead : ∀ c ∈ lead, Text.isSpace c = true)
    (htitle : ∀ c ∈ title.toList, Text.isBreak c = false)
    (htail : ∀ c ∈ tail.head?, Text.isBreak c = true) : Layout where
  lead := lead
  groups := NoteId.groups id.components
  gap := [' ']
  title := title.toList
  body := tail
  lead_space := hlead
  groups_ne_nil := NoteId.groups_ne_nil id.ne_nil
  groups_length := by
    rw [NoteId.groups, List.length_map]
    exact id.depth_le
  groups_digits := fun _ hg => NoteId.isGroup_of_mem_groups hg
  gap_ne_nil := List.cons_ne_nil _ _
  gap_blank := by
    intro c hc
    rw [List.mem_singleton.mp hc]
    rfl
  title_line := htitle
  body_break := htail

/-- The parts of a written marker are those it was written from. -/
theorem parts?_line {lead tail : List Char} (id : NoteId) (title : String)
    (hlead : ∀ c ∈ lead, Text.isSpace c = true)
    (htitle : ∀ c ∈ title.toList, Text.isBreak c = false)
    (htail : ∀ c ∈ tail.head?, Text.isBreak c = true) :
    parts? (lead ++ (line id title).toList ++ tail)
      = some ⟨id.display.toList, ' ' :: title.toList, tail⟩ := by
  have hid : NoteId.joined (NoteId.groups id.components) = id.display.toList :=
    (NoteId.toList_dotted id.components).symm
  have htext : (Layout.ofLine id title hlead htitle htail).text
      = lead ++ (line id title).toList ++ tail := by
    rw [toList_line, List.append_assoc, List.append_assoc, List.append_assoc, ← hid]
    rfl
  rw [← htext, parts?_text, ← hid]
  rfl

/-- **A written marker is read back.**  White space before the marker does not count, and the title
and the text after the line are trimmed. -/
theorem parse?_line {lead tail : List Char} (id : NoteId) (title : String)
    (hlead : ∀ c ∈ lead, Text.isSpace c = true)
    (htitle : ∀ c ∈ title.toList, Text.isBreak c = false)
    (htail : ∀ c ∈ tail.head?, Text.isBreak c = true) :
    parse? (String.ofList (lead ++ (line id title).toList ++ tail))
      = some ⟨id, String.ofList (Text.trim (' ' :: title.toList)),
          String.ofList (Text.trim tail)⟩ := by
  rw [parse?, read, String.toList_ofList, parts?_line id title hlead htitle htail]
  simp only [String.ofList_toList, NoteId.parse_display]
  rfl

end CodeNotes.Marker
