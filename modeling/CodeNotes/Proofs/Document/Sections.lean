import CodeNotes.Document.Markdown
import CodeNotes.Proofs.Note.Order
import CodeNotes.Proofs.Text.Scan

/-!
# Where headings stand

`headingOffset` says where the heading of a note starts in a document and `hashesAt` counts the `#`
that stand at an offset of a text.  The heading of a note stands at its offset
(`drop_headingOffset`), offsets grow with the place of the note (`headingOffset_lt_headingOffset`),
and the number of `#` is the depth of the id below the title (`hashesAt_headingOffset`).
-/

namespace CodeNotes.Document

variable (options : RenderOptions) (dir : Path)

/-! ### Where headings stand -/

/-- The text that a note contributes. -/
def noteText (note : Note) : List Char :=
  (noteParts options dir note).flatMap fun part => (paragraph options part).toList

/-- The title and the texts of notes. -/
def textOf (notes : List Note) : List Char :=
  (parts options dir notes).flatMap fun part => (paragraph options part).toList

/-- The offset at which the heading of the note at index `k` starts: everything before it belongs
to the title or to the notes before. -/
def headingOffset (notes : List Note) (k : Nat) : Nat :=
  (textOf options dir (notes.take k)).length

/-- The number of `#` that stand in a text from an offset on. -/
def hashesAt (text : String) (offset : Nat) : Nat :=
  ((text.toList.drop offset).takeWhile (· == '#')).length

theorem textOf_append (notes more : List Note) :
    textOf options dir (notes ++ more)
      = textOf options dir notes ++ more.flatMap (noteText options dir) := by
  unfold textOf parts noteText
  rw [List.flatMap_append, ← List.cons_append, List.flatMap_append, List.flatMap_assoc]

theorem toList_render {notes : List Note} (h : notes ≠ []) :
    (render options dir notes).toList = textOf options dir notes := by
  have hne : notes.isEmpty = false := List.isEmpty_eq_false_iff.mpr h
  unfold render textOf
  rw [hne, if_neg Bool.false_ne_true, String.toList_join, List.flatMap_map]

theorem toList_paragraph (text : String) :
    (paragraph options text).toList
      = text.toList ++ (options.eol.toList ++ options.eol.toList) := by
  unfold paragraph
  rw [String.toList_append, String.toList_append, List.append_assoc]

/-- The text of a note starts with its heading. -/
theorem noteText_eq (note : Note) :
    ∃ rest, noteText options dir note
      = (paragraph options (heading options note)).toList ++ rest := by
  unfold noteText noteParts
  rw [List.append_assoc, List.singleton_append, List.flatMap_cons]
  exact ⟨_, rfl⟩

/-- A document can be read from the heading of any of its notes on. -/
theorem drop_headingOffset {notes : List Note} {k : Nat} (hk : k < notes.length) :
    ∃ rest, (render options dir notes).toList.drop (headingOffset options dir notes k)
      = (paragraph options (heading options notes[k])).toList ++ rest := by
  have hne : notes ≠ [] := List.ne_nil_of_length_pos (Nat.zero_lt_of_lt hk)
  have hsplit : notes = notes.take k ++ notes[k] :: notes.drop (k + 1) := by
    rw [← List.drop_eq_getElem_cons hk, List.take_append_drop]
  have htext : textOf options dir notes = textOf options dir (notes.take k)
      ++ (notes[k] :: notes.drop (k + 1)).flatMap (noteText options dir) := by
    rw [← textOf_append, ← hsplit]
  obtain ⟨rest, hrest⟩ := noteText_eq options dir notes[k]
  rw [toList_render options dir hne, htext, headingOffset, List.drop_left, List.flatMap_cons,
    hrest, List.append_assoc]
  exact ⟨_, rfl⟩

theorem noteText_ne_nil (note : Note) : noteText options dir note ≠ [] := by
  obtain ⟨rest, hrest⟩ := noteText_eq options dir note
  have hblank : ' ' ∈ (heading options note).toList := by
    unfold heading
    rw [String.toList_append, String.toList_append, List.append_assoc]
    exact List.mem_append_right _ (List.mem_append_left _ (by decide))
  rw [hrest, toList_paragraph]
  intro hnil
  rw [List.append_assoc, List.append_eq_nil_iff] at hnil
  rw [hnil.1] at hblank
  exact absurd hblank List.not_mem_nil

/-- Headings stand in the order of the notes. -/
theorem headingOffset_lt_headingOffset {notes : List Note} {i j : Nat} (hij : i < j)
    (hi : i < notes.length) :
    headingOffset options dir notes i < headingOffset options dir notes j := by
  have htake : notes.take j = notes.take i ++ (notes.drop i).take (j - i) := by
    rw [← List.take_add, Nat.add_sub_cancel' (Nat.le_of_lt hij)]
  obtain ⟨n, hn⟩ : ∃ n, j - i = n + 1 := ⟨j - i - 1, by omega⟩
  have hpos := List.length_pos_of_ne_nil (noteText_ne_nil options dir notes[i])
  rw [headingOffset, headingOffset, htake, textOf_append, List.length_append, hn,
    List.drop_eq_getElem_cons hi, List.take_succ_cons, List.flatMap_cons, List.length_append]
  omega

theorem lt_of_headingOffset_lt {notes : List Note} {i j : Nat} (hj : j < notes.length)
    (h : headingOffset options dir notes i < headingOffset options dir notes j) : i < j := by
  by_contra hij
  rcases Nat.eq_or_lt_of_le (Nat.le_of_not_lt hij) with rfl | hlt
  · exact Nat.lt_irrefl _ h
  · exact Nat.lt_asymm h (headingOffset_lt_headingOffset options dir hlt hj)

/-! ### How deep headings are -/

/-- The `#` that a heading starts with. -/
def headingMarks (note : Note) : List Char :=
  options.titleLevel.toList ++ List.replicate note.id.depth '#'

theorem toList_heading (note : Note) :
    (heading options note).toList = headingMarks options note ++ ' ' :: note.title.toList := by
  unfold heading headingMarks
  rw [String.toList_append, String.toList_append, String.toList_append, String.toList_ofList]
  simp only [List.append_assoc]
  rfl

theorem length_headingMarks (note : Note) :
    (headingMarks options note).length = options.titleLevel.length + note.id.depth := by
  rw [headingMarks, List.length_append, List.length_replicate, String.length_toList]

variable {options}

theorem eq_of_mem_headingMarks (h : options.validate = .ok ()) {note : Note} {c : Char}
    (hc : c ∈ headingMarks options note) : c = '#' := by
  obtain ⟨-, -, hlevel⟩ := options.validate_eq_ok_iff.mp h
  rcases List.mem_append.mp hc with hc | hc
  · exact hlevel c hc
  · exact List.eq_of_mem_replicate hc

/-- The `#` of a heading reach up to the blank before the title. -/
theorem takeWhile_headingMarks (h : options.validate = .ok ()) (note : Note) (rest : List Char) :
    (headingMarks options note ++ ' ' :: rest).takeWhile (· == '#') = headingMarks options note := by
  refine Text.takeWhile_append_stop (fun c hc => beq_iff_eq.mpr (eq_of_mem_headingMarks h hc)) ?_
  intro c hc
  obtain rfl := Option.some.inj hc
  rfl

/-- **The depth of a heading.**  A heading has the `#` of the title and one more for every level of
the id. -/
theorem hashesAt_headingOffset (h : options.validate = .ok ()) {notes : List Note} {k : Nat}
    (hk : k < notes.length) :
    hashesAt (render options dir notes) (headingOffset options dir notes k)
      = options.titleLevel.length + notes[k].id.depth := by
  obtain ⟨rest, hrest⟩ := drop_headingOffset options dir hk
  rw [hashesAt, hrest, toList_paragraph, toList_heading, List.append_assoc, List.append_assoc,
    List.cons_append, takeWhile_headingMarks h, length_headingMarks]

end CodeNotes.Document
