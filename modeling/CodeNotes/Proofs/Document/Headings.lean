import CodeNotes.Proofs.Document.Sections
import CodeNotes.Proofs.Note.Id
import CodeNotes.Proofs.Path.Components

/-!
# The outline read back from the document

The lines of a document that start with `#` are its headings: that of the document and one for each
note, in their order (`headingLines_render`).  This holds if nothing else starts a line with `#`: a
title ends where its line ends, no line of a body starts with `#`, and a link has no line feed in it.
Whatever is written into the document is followed by the line separator twice, so it starts at the
start of a line, and what its lines are does not depend on what stands around it
(`headingLines_paragraph`).

A heading tells the depth of the id by the number of `#` before its first blank, and the title by
what follows the blank (`outline_reads_back`).
-/

namespace CodeNotes

namespace Text

/-! ### Lines -/

/-- A line without one carriage return at its end. -/
def dropReturn (l : List Char) : List Char :=
  if l.getLast? = some '\r' then l.dropLast else l

/-- The lines of a text: what stands between its line feeds, each without one carriage return at its
end. -/
def lines (cs : List Char) : List (List Char) :=
  (cs.splitOn '\n').map dropReturn

theorem dropReturn_append_return (l : List Char) : dropReturn (l ++ ['\r']) = l := by
  rw [dropReturn, List.getLast?_concat, if_pos rfl, List.dropLast_concat]

theorem dropReturn_of_not_mem {l : List Char} (h : '\r' ∉ l) : dropReturn l = l := by
  rw [dropReturn, if_neg]
  exact fun hlast => h (List.mem_of_getLast? hlast)

theorem dropReturn_prefix (l : List Char) : dropReturn l <+: l := by
  rw [dropReturn]
  split
  · exact List.dropLast_prefix l
  · exact List.prefix_rfl

theorem splitOn_append_lineFeed (cs cs' : List Char) :
    (cs ++ '\n' :: cs').splitOn '\n' = cs.splitOn '\n' ++ cs'.splitOn '\n' :=
  List.splitOnP_append_cons cs cs' (beq_self_eq_true '\n')

theorem splitOn_of_not_mem {cs : List Char} (h : '\n' ∉ cs) : cs.splitOn '\n' = [cs] := by
  have hjoin := List.splitOn_intercalate '\n' (List.forall_mem_singleton.mpr h)
    (List.cons_ne_nil cs [])
  rwa [List.intercalate_singleton] at hjoin

theorem exists_last_lineFeed {cs : List Char} (h : '\n' ∈ cs) :
    ∃ front last, cs = front ++ '\n' :: last ∧ '\n' ∉ last := by
  obtain ⟨as, bs, hcs, hnone⟩ := List.eq_append_cons_of_mem (List.mem_reverse.mpr h)
  refine ⟨bs.reverse, as.reverse, ?_, fun hmem => hnone (List.mem_reverse.mp hmem)⟩
  rw [← List.reverse_inj, hcs]
  simp

/-- What is put behind a text goes on with its last line. -/
theorem exists_splitOn_append {e : List Char} (he : '\n' ∉ e) (cs : List Char) :
    ∃ front last, cs.splitOn '\n' = front ++ [last] ∧
      (cs ++ e).splitOn '\n' = front ++ [last ++ e] := by
  by_cases h : '\n' ∈ cs
  · obtain ⟨front, last, rfl, hlast⟩ := exists_last_lineFeed h
    have hend : '\n' ∉ last ++ e := List.not_mem_append hlast he
    refine ⟨front.splitOn '\n', last, ?_, ?_⟩
    · rw [splitOn_append_lineFeed, splitOn_of_not_mem hlast]
    · rw [List.append_assoc, List.cons_append, splitOn_append_lineFeed, splitOn_of_not_mem hend]
  · have hend : '\n' ∉ cs ++ e := List.not_mem_append h he
    exact ⟨[], cs, splitOn_of_not_mem h, splitOn_of_not_mem hend⟩

end Text

namespace Document

/-! ### Lines that are headings -/

/-- The lines of a text that start with `#`. -/
def headingLines (cs : List Char) : List (List Char) :=
  (Text.lines cs).filter fun l => l.head? == some '#'

theorem headingLines_append (cs cs' : List Char) :
    headingLines (cs ++ '\n' :: cs') = headingLines cs ++ headingLines cs' := by
  rw [headingLines, Text.lines, Text.splitOn_append_lineFeed, List.map_append, List.filter_append]
  rfl

/-- Carriage returns do not make a heading of a line. -/
theorem headingLines_eq_nil {cs : List Char} (h : ∀ l ∈ cs.splitOn '\n', l.head? ≠ some '#') :
    headingLines cs = [] := by
  rw [headingLines, List.filter_eq_nil_iff]
  intro line hline hhead
  obtain ⟨l, hl, rfl⟩ := List.mem_map.mp hline
  obtain ⟨rest, hrest⟩ := List.head?_eq_some_iff.mp (eq_of_beq hhead)
  obtain ⟨tail, htail⟩ := Text.dropReturn_prefix l
  refine h l hl ?_
  rw [← htail, hrest]
  rfl

section Separator

variable {e : List Char} (he : e = [] ∨ e = ['\r'])

include he

theorem not_mem_separator {c : Char} (hc : c ≠ '\r') : c ∉ e := by
  rcases he with rfl | rfl
  · exact List.not_mem_nil
  · exact fun hmem => hc (List.mem_singleton.mp hmem)

/-- A line that has no line break in it is read as it is. -/
theorem lines_line {l : List Char} (hreturn : '\r' ∉ l) (hfeed : '\n' ∉ l) :
    Text.lines (l ++ e) = [l] := by
  have hwhole : '\n' ∉ l ++ e := List.not_mem_append hfeed (not_mem_separator he (by decide))
  have hdropped : Text.dropReturn (l ++ e) = l := by
    rcases he with rfl | rfl
    · rw [List.append_nil]
      exact Text.dropReturn_of_not_mem hreturn
    · exact Text.dropReturn_append_return l
  rw [Text.lines, Text.splitOn_of_not_mem hwhole, List.map_singleton, hdropped]

/-- What is read behind a text goes on with its last line, and does not make a heading of it. -/
theorem headingLines_append_separator {cs : List Char}
    (h : ∀ l ∈ cs.splitOn '\n', l.head? ≠ some '#') : headingLines (cs ++ e) = [] := by
  obtain ⟨front, last, hsplit, hsplit'⟩ :=
    Text.exists_splitOn_append (not_mem_separator he (by decide)) cs
  rw [hsplit, List.forall_mem_append, List.forall_mem_singleton] at h
  -- Only the last line changes; if it was empty, it starts with what is read behind it.
  apply headingLines_eq_nil
  rw [hsplit', List.forall_mem_append, List.forall_mem_singleton]
  refine ⟨h.1, fun hhead => ?_⟩
  rw [List.head?_append, Option.or_eq_some_iff] at hhead
  rcases hhead with hlast | ⟨-, hseparator⟩
  · exact h.2 hlast
  · exact not_mem_separator he (by decide) (List.mem_of_head? hseparator)

variable {options : RenderOptions} (heol : options.eol.toList = e ++ ['\n'])

include heol

/-- **What a paragraph adds to the headings** does not depend on what follows it. -/
theorem headingLines_paragraph (text : String) (rest : List Char) :
    headingLines ((paragraph options text).toList ++ rest)
      = headingLines (text.toList ++ e) ++ headingLines rest := by
  -- The first separator ends the last line of the text, the second one ends an empty line.
  have htext : (paragraph options text).toList ++ rest
      = (text.toList ++ e) ++ '\n' :: (e ++ '\n' :: rest) := by
    rw [toList_paragraph, heol]
    simp only [List.append_assoc, List.cons_append, List.nil_append]
  have hempty : headingLines e = [] := by
    have hnone : headingLines ([] ++ e) = [] := headingLines_append_separator he (by decide)
    rwa [List.nil_append] at hnone
  rw [htext, headingLines_append, headingLines_append, hempty, List.nil_append]

/-- The headings of a text are those of its paragraphs. -/
theorem headingLines_flatMap (texts : List String) :
    headingLines (texts.flatMap fun text => (paragraph options text).toList)
      = texts.flatMap fun text => headingLines (text.toList ++ e) := by
  induction texts with
  | nil => rfl
  | cons text texts ih =>
    rw [List.flatMap_cons, headingLines_paragraph he heol, ih, List.flatMap_cons]

end Separator

/-- A separator is a line feed, behind a carriage return or by itself. -/
theorem exists_separator {options : RenderOptions}
    (heol : options.eol = "\n" ∨ options.eol = "\r\n") :
    ∃ e, (e = [] ∨ e = ['\r']) ∧ options.eol.toList = e ++ ['\n'] := by
  rcases heol with heol | heol
  · exact ⟨[], .inl rfl, by rw [heol]; rfl⟩
  · exact ⟨['\r'], .inr rfl, by rw [heol]; rfl⟩

/-! ### Headings of a document -/

/-- A note that adds nothing but its heading to the headings of a document: its title stays on its
line, no line of its body starts with `#`, and its path has no line feed in it. -/
structure Outlined (note : Note) : Prop where
  title : '\r' ∉ note.title.toList ∧ '\n' ∉ note.title.toList
  body : ∀ l ∈ note.body.toList.splitOn '\n', l.head? ≠ some '#'
  path : '\n' ∉ note.path.text.toList

section Parts

variable {options : RenderOptions}

theorem head?_titleLevel (h : options.validate = .ok ()) :
    options.titleLevel.toList.head? = some '#' := by
  obtain ⟨-, hne, hlevel⟩ := options.validate_eq_ok_iff.mp h
  obtain ⟨c, rest, hcons⟩ := List.exists_cons_of_ne_nil (mt String.toList_eq_nil_iff.mp hne)
  rw [hcons] at hlevel ⊢
  rw [hlevel c List.mem_cons_self, List.head?_cons]

/-- A link has no line break but those of its start and of the path. -/
theorem not_mem_contextLink {b : Char} (hb : Text.isBreak b = true) {note : Note} {base : String}
    (hbase : b ∉ base.toList) (hpath : b ∉ note.path.text.toList) (dir : Path) :
    b ∉ (contextLink note dir base).toList := by
  have hliteral : ∀ s ∈ ["[See in context](", "/", "#L", "-L", ")"], b ∉ s.toList := by
    rcases Text.isBreak_iff.mp hb with rfl | rfl <;> decide
  have hdigits : ∀ n : Nat, b ∉ n.repr.toList := by
    intro n hmem
    have hdigit := NoteId.isDigit_of_mem_repr hmem
    rcases Text.isBreak_iff.mp hb with rfl | rfl <;> nomatch hdigit
  have hstart : b ∉ (linkBase base).toList := by
    rw [linkBase, String.toList_ofList]
    exact fun hmem => hbase ((List.rdropWhile_prefix _ base.toList).subset hmem)
  have hfile : b ∉ (note.path.relativeTo dir).linkText.toList := by
    have hslash : '/' ≠ b := by rintro rfl; nomatch hb
    have hdot : '.' ≠ b := by rintro rfl; nomatch hb
    have hall := Path.forall_mem_linkText_relativeTo (P := (· ≠ b)) hslash hdot
      (fun c hc heq => hpath (heq ▸ hc)) dir
    exact fun hmem => hall b hmem rfl
  simp only [List.forall_mem_cons] at hliteral
  obtain ⟨hopen, hsep, hfirst, hlast, hclose, -⟩ := hliteral
  -- Part by part: the start, the path and the two line numbers, each behind a literal.
  unfold contextLink linkTarget
  simp only [String.toList_append, List.mem_append, not_or]
  exact ⟨⟨hopen, ⟨⟨⟨⟨⟨hstart, hsep⟩, hfile⟩, hfirst⟩, hdigits _⟩, hlast⟩, hdigits _⟩, hclose⟩

/-- A link is a line that does not start with `#`. -/
theorem head?_of_contextLink {note : Note} {base : String} (hbase : '\n' ∉ base.toList)
    (hpath : '\n' ∉ note.path.text.toList) (dir : Path) :
    ∀ l ∈ (contextLink note dir base).toList.splitOn '\n', l.head? ≠ some '#' := by
  have hopen : (contextLink note dir base).toList.head? = some '[' := by
    have hstart : "[See in context](".toList.head? = some '[' := by decide
    unfold contextLink
    rw [String.append_assoc, String.toList_append, List.head?_append, hstart, Option.some_or]
  have hfeed : '\n' ∉ (contextLink note dir base).toList :=
    not_mem_contextLink (Text.isBreak_iff.mpr (.inr rfl)) hbase hpath dir
  rw [Text.splitOn_of_not_mem hfeed, List.forall_mem_singleton, hopen]
  decide

end Parts

section Document

variable {options : RenderOptions} {e : List Char} (he : e = [] ∨ e = ['\r'])

include he

/-- A line that starts with `#` is a heading. -/
theorem headingLines_line {l : List Char} (hhash : l.head? = some '#') (hreturn : '\r' ∉ l)
    (hfeed : '\n' ∉ l) : headingLines (l ++ e) = [l] := by
  rw [headingLines, lines_line he hreturn hfeed, List.filter_singleton, hhash]
  rfl

/-- What follows `#` and a blank on their line is part of the heading. -/
theorem headingLines_marks {marks text : List Char} (hhash : marks.head? = some '#')
    (hmarks : ∀ c ∈ marks, c = '#') (hreturn : '\r' ∉ text) (hfeed : '\n' ∉ text) :
    headingLines (marks ++ ' ' :: text ++ e) = [marks ++ ' ' :: text] := by
  have hbreak : ∀ b, b ≠ '#' → b ≠ ' ' → b ∉ text → b ∉ marks ++ ' ' :: text :=
    fun b hne hblank htext => List.not_mem_append (fun hmem => hne (hmarks b hmem))
      (List.not_mem_cons_of_ne_of_not_mem hblank htext)
  apply headingLines_line he
  · rw [List.head?_append, hhash, Option.some_or]
  · exact hbreak _ (by decide) (by decide) hreturn
  · exact hbreak _ (by decide) (by decide) hfeed

theorem headingLines_title (h : options.validate = .ok ()) :
    headingLines ((options.titleLevel ++ " " ++ title).toList ++ e)
      = [(options.titleLevel ++ " " ++ title).toList] := by
  have htitle : (options.titleLevel ++ " " ++ title).toList
      = options.titleLevel.toList ++ ' ' :: title.toList := by
    rw [String.append_assoc, String.toList_append]
    rfl
  rw [htitle]
  exact headingLines_marks he (head?_titleLevel h) (options.validate_eq_ok_iff.mp h).2.2
    (by decide) (by decide)

theorem headingLines_heading (h : options.validate = .ok ()) {note : Note}
    (hnote : Outlined note) :
    headingLines ((heading options note).toList ++ e) = [(heading options note).toList] := by
  have hhash : (headingMarks options note).head? = some '#' := by
    rw [headingMarks, List.head?_append, head?_titleLevel h, Option.some_or]
  rw [toList_heading]
  exact headingLines_marks he hhash (fun c hc => eq_of_mem_headingMarks h hc) hnote.title.1
    hnote.title.2

/-- Of the parts of a note only the heading is one. -/
theorem headingLines_noteParts (h : options.validate = .ok ())
    (hbase : '\n' ∉ options.base.toList) {note : Note} (hnote : Outlined note) (dir : Path) :
    ((noteParts options dir note).flatMap fun part => headingLines (part.toList ++ e))
      = [(heading options note).toList] := by
  have hbody : headingLines (note.body.toList ++ e) = [] :=
    headingLines_append_separator he hnote.body
  have hlink : headingLines ((contextLink note dir options.base).toList ++ e) = [] :=
    headingLines_append_separator he (head?_of_contextLink hbase hnote.path dir)
  rw [noteParts, List.flatMap_append, List.flatMap_append, List.flatMap_singleton,
    List.flatMap_singleton, headingLines_heading he h hnote, hlink]
  split
  · rfl
  · rw [List.flatMap_singleton, hbody]
    rfl

/-- **The headings of a document** are that of the document and one for each note, in order. -/
theorem headingLines_render (heol : options.eol.toList = e ++ ['\n'])
    (h : options.validate = .ok ()) (hbase : '\n' ∉ options.base.toList) {notes : List Note}
    (hne : notes ≠ []) (hnotes : ∀ note ∈ notes, Outlined note) (dir : Path) :
    headingLines (render options dir notes).toList
      = (options.titleLevel ++ " " ++ title).toList ::
        notes.map fun note => (heading options note).toList := by
  have hparts : (notes.flatMap fun note =>
        (noteParts options dir note).flatMap fun part => headingLines (part.toList ++ e))
      = notes.map fun note => (heading options note).toList := by
    rw [List.map_eq_flatMap]
    exact List.flatMap_congr fun note hnote =>
      headingLines_noteParts he h hbase (hnotes note hnote) dir
  rw [toList_render options dir hne, textOf, headingLines_flatMap he heol, parts, List.flatMap_cons,
    headingLines_title he h, List.flatMap_assoc, hparts]
  rfl

end Document

/-! ### Headings read -/

/-- What a heading says: the number of `#` it starts with, and the text after its first blank. -/
def readHeading (line : List Char) : Nat × List Char :=
  ((line.takeWhile (· == '#')).length, (line.dropWhile (· != ' ')).drop 1)

theorem readHeading_heading {options : RenderOptions} (h : options.validate = .ok ())
    (note : Note) :
    readHeading (heading options note).toList
      = (options.titleLevel.length + note.id.depth, note.title.toList) := by
  have hmarks : ∀ c ∈ headingMarks options note, (c != ' ') = true := by
    intro c hc
    rw [eq_of_mem_headingMarks h hc]
    decide
  have hrest : (headingMarks options note ++ ' ' :: note.title.toList).dropWhile (· != ' ')
      = ' ' :: note.title.toList := by
    rw [List.dropWhile_append_of_pos hmarks, List.dropWhile_cons_of_neg (by decide)]
  rw [readHeading, toList_heading, takeWhile_headingMarks h, length_headingMarks, hrest,
    List.drop_succ_cons, List.drop_zero]

/-- Only a document without notes is empty. -/
theorem render_eq_empty_iff (options : RenderOptions) (dir : Path) (notes : List Note) :
    render options dir notes = "" ↔ notes = [] := by
  constructor
  · intro hempty
    by_contra hne
    -- The options need not be valid: the title has a blank in it whatever they are.
    have hblank : ' ' ∈ (options.titleLevel ++ " " ++ title).toList := by
      rw [String.toList_append, String.toList_append]
      exact List.mem_append_left _ (List.mem_append_right _ (by decide))
    have hmem : ' ' ∈ (render options dir notes).toList := by
      rw [toList_render options dir hne, textOf, parts, List.flatMap_cons, toList_paragraph]
      exact List.mem_append_left _ (List.mem_append_left _ hblank)
    rw [hempty] at hmem
    exact absurd hmem (by decide)
  · rintro rfl
    rfl

/-- **The outline reads back.**  The lines of a document that start with `#` are its title and one
heading for each note, in order, from which the depth of the id and the title of the note can be
read.  No notes, and nothing else, give an empty document. -/
theorem outline_reads_back (options : RenderOptions) (dir : Path) (notes : List Note) :
    (render options dir notes = "" ↔ notes = []) ∧
    (notes ≠ [] → options.validate = .ok () → options.eol = "\n" ∨ options.eol = "\r\n" →
      '\n' ∉ options.base.toList → (∀ note ∈ notes, Outlined note) →
      ∃ headings, headingLines (render options dir notes).toList
          = (options.titleLevel ++ " Architecture Notes").toList :: headings ∧
        headings.map readHeading = notes.map fun note =>
          (options.titleLevel.length + note.id.depth, note.title.toList)) := by
  refine ⟨render_eq_empty_iff options dir notes, fun hne h heol hbase hnotes => ?_⟩
  obtain ⟨e, he, hsplit⟩ := exists_separator heol
  have htitle : options.titleLevel ++ " " ++ title = options.titleLevel ++ " Architecture Notes" :=
    String.append_assoc
  refine ⟨notes.map fun note => (heading options note).toList, ?_, ?_⟩
  · rw [headingLines_render he hsplit h hbase hne hnotes, htitle]
  · rw [List.map_map]
    exact List.map_congr_left fun note _ => readHeading_heading h note

/-- Two notes, one without a title and one whose title and body have a `#` in them. -/
def hashedNotes : List Note :=
  [⟨⟨[4], by decide, by decide⟩, "", "", ⟨"/repo/a.js"⟩, ⟨1, 1⟩⟩,
    ⟨⟨[4, 0], by decide, by decide⟩, "# of retries", "Three.\n\n  # as in `a.js`",
      ⟨"/repo/b.js"⟩, ⟨7, 9⟩⟩]

theorem outline_reads_back_of_hashes :
    (∀ note ∈ hashedNotes, Outlined note) ∧
      ∃ headings, headingLines (render ⟨"\r\n", "##", "."⟩ ⟨"/repo"⟩ hashedNotes).toList
          = "## Architecture Notes".toList :: headings ∧
        headings.map readHeading = [(3, []), (4, "# of retries".toList)] := by
  have hnotes : ∀ note ∈ hashedNotes, Outlined note := by
    intro note hnote
    rcases List.mem_cons.mp hnote with rfl | hnote
    · exact ⟨by decide, by decide, by decide⟩
    · obtain rfl := List.mem_singleton.mp hnote
      exact ⟨by decide, by decide, by decide⟩
  exact ⟨hnotes, (outline_reads_back ⟨"\r\n", "##", "."⟩ ⟨"/repo"⟩ hashedNotes).2 (by decide) rfl
    (.inr rfl) (by decide) hnotes⟩

end Document

end CodeNotes
