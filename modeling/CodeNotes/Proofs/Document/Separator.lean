import CodeNotes.Proofs.Document.Headings
import CodeNotes.Proofs.Source.LineEndings
import CodeNotes.Proofs.Source.Shebang
import CodeNotes.Proofs.Text.Cut

/-!
# One line separator throughout

Every part of a document is followed by the line separator twice, so a document is uniform in it iff
each of its parts is (`Document.uniform_flatMap`).  Titles and links have no line breaks in them.
Bodies have those of the comments they were read from, whichever these are: a document is uniform
iff the bodies are (`Document.uniform_render_iff`).

A body is a stretch of the source (`Source.body_infix_of_mem_extract`) that starts and ends with
something other than white space.  So the body is uniform if the source is
(`Document.uniform_body_of_mem_extract`), and the document with it.  Where the sources end their
lines with something else, the document has two kinds of line ends.
-/

namespace CodeNotes

/-! ### Bodies as stretches of a source -/

theorem Text.trim_infix_self (cs : List Char) : trim cs <:+: cs :=
  (trimEnd_prefix_self (trimStart cs)).isInfix.trans (List.dropWhile_suffix isSpace).isInfix

theorem Marker.body_infix_of_parse? {t : String} {f : Fragment} (h : parse? t = some f) :
    f.body.toList <:+: t.toList := by
  obtain ⟨m, hm, -⟩ := exists_layout_of_parse? (Option.isSome_iff_exists.mpr ⟨f, h⟩)
  obtain ⟨-, -, hbody⟩ := eq_of_parse? h hm
  have hend : m.body <:+ t.toList := by
    rw [← hm, m.text_eq_front]
    exact List.suffix_append m.front m.body
  rw [hbody]
  exact (Text.trim_infix_self m.body).trans hend.isInfix

namespace Comment

theorem dropMark_suffix (a b : Char) (cs : List Char) : dropMark a b cs <:+ cs := by
  cases cs with
  | nil => exact List.suffix_rfl
  | cons c cs =>
    rw [dropMark]
    split
    · exact List.suffix_cons c cs
    · exact List.suffix_rfl

theorem blockText_infix_self (inner : List Char) : blockText inner <:+: inner := by
  have hopen : (Text.beforeSuffix? ['*', '/'] inner).getD inner <+: inner := by
    cases hclose : Text.beforeSuffix? ['*', '/'] inner with
    | none => exact List.prefix_rfl
    | some cs =>
      rw [Text.beforeSuffix?, Option.map_eq_some_iff] at hclose
      obtain ⟨rest, hrest, rfl⟩ := hclose
      have hinner := congrArg List.reverse (Marker.eq_append_of_afterPrefix? hrest)
      rw [List.reverse_reverse, List.reverse_append, List.reverse_reverse] at hinner
      exact ⟨['*', '/'], hinner.symm⟩
  exact (dropMark_suffix '*' '!' _).isInfix.trans hopen.isInfix

/-- What a comment says is a stretch of it. -/
theorem strip_infix_self (raw : List Char) : strip raw <:+: raw := by
  fun_cases strip raw with
  | case1 inner =>
    exact (blockText_infix_self inner).trans (List.suffix_append ['/', '*'] inner).isInfix
  | case2 inner =>
    have hinner : dropMark '/' '!' inner <:+: '/' :: '/' :: inner :=
      ((dropMark_suffix '/' '!' inner).trans (List.suffix_append ['/', '/'] inner)).isInfix
    exact (lineText_prefix_self _).isInfix.trans hinner
  | case3 inner =>
    exact (lineText_prefix_self inner).isInfix.trans (List.suffix_cons '#' inner).isInfix
  | case4 => exact (lineText_prefix_self raw).isInfix

end Comment

theorem Span.text_infix_self (s : Span) (source : List Char) : s.text source <:+: source :=
  (List.take_prefix _ _).isInfix.trans (List.drop_suffix s.start source).isInfix

/-- **The body of a note is a stretch of the source**, with the mark of an interpreter line before
it. -/
theorem Source.body_infix_of_mem_extract {path : Path} {source : String} {notes : List Note}
    {note : Note} (h : extract path source = .ok notes) (hnote : note ∈ notes) :
    note.body.toList <:+: (neutralizeShebang (Language.ofPath path) source).toList := by
  obtain ⟨node, -, f, hf, rfl⟩ := exists_node_of_mem_extract h hnote
  have hbody := Marker.body_infix_of_parse? hf
  rw [Comment.ofNode, String.toList_ofList] at hbody
  exact hbody.trans ((Comment.strip_infix_self _).trans (Span.text_infix_self _ _))

/-! ### Parts of a document -/

namespace Document

section Parts

variable {options : RenderOptions} (heol : Text.IsSeparator options.eol.toList)

include heol

/-- Whether a paragraph is uniform does not depend on what follows it. -/
theorem uniform_paragraph (text : String) (rest : List Char) :
    Text.Uniform options.eol.toList ((paragraph options text).toList ++ rest) ↔
      Text.Uniform options.eol.toList text.toList ∧ Text.Uniform options.eol.toList rest := by
  rw [toList_paragraph, List.append_assoc, List.append_assoc, Text.uniform_append heol,
    Text.uniform_separator_append heol]

/-- **Paragraphs are uniform together** iff each is. -/
theorem uniform_flatMap (texts : List String) :
    Text.Uniform options.eol.toList (texts.flatMap fun text => (paragraph options text).toList) ↔
      ∀ text ∈ texts, Text.Uniform options.eol.toList text.toList := by
  induction texts with
  | nil => exact iff_of_true Text.uniform_nil nofun
  | cons text texts ih =>
    rw [List.flatMap_cons, uniform_paragraph heol, ih, List.forall_mem_cons]

variable (hoptions : options.validate = .ok ())
  (hbase : ∀ c ∈ options.base.toList, Text.isBreak c = false)

include hoptions

theorem uniform_title :
    Text.Uniform options.eol.toList (options.titleLevel ++ " " ++ title).toList := by
  refine Text.uniform_of_not_isBreak heol fun c hc => ?_
  have htitle : ∀ c ∈ (" " ++ title).toList, Text.isBreak c = false := by
    simp [title, Text.isBreak]
  rw [String.append_assoc, String.toList_append] at hc
  rcases List.mem_append.mp hc with hc | hc
  · rw [(options.validate_eq_ok_iff.mp hoptions).2.2 c hc]
    rfl
  · exact htitle c hc

theorem uniform_heading {note : Note} (htitle : ∀ c ∈ note.title.toList, Text.isBreak c = false) :
    Text.Uniform options.eol.toList (heading options note).toList := by
  refine Text.uniform_of_not_isBreak heol fun c hc => ?_
  rw [toList_heading, List.mem_append, List.mem_cons] at hc
  rcases hc with hc | rfl | hc
  · rw [eq_of_mem_headingMarks hoptions hc]
    rfl
  · rfl
  · exact htitle c hc

omit hoptions in
include hbase in
theorem uniform_contextLink {note : Note}
    (hpath : ∀ c ∈ note.path.text.toList, Text.isBreak c = false) (dir : Path) :
    Text.Uniform options.eol.toList (contextLink note dir options.base).toList := by
  refine Text.uniform_of_not_isBreak heol fun c hc => ?_
  by_contra hbreak
  have hnot : ∀ {cs : List Char}, (∀ c ∈ cs, Text.isBreak c = false) → c ∉ cs :=
    fun h hmem => hbreak (h c hmem)
  exact not_mem_contextLink (eq_true_of_ne_false hbreak) (hnot hbase) (hnot hpath) dir hc

include hbase

/-- A note is uniform in a document iff its body is. -/
theorem uniform_noteParts {note : Note}
    (htitle : ∀ c ∈ note.title.toList, Text.isBreak c = false)
    (hpath : ∀ c ∈ note.path.text.toList, Text.isBreak c = false) (dir : Path) :
    (∀ part ∈ noteParts options dir note, Text.Uniform options.eol.toList part.toList) ↔
      Text.Uniform options.eol.toList note.body.toList := by
  have hheading := uniform_heading heol hoptions htitle
  have hlink := uniform_contextLink heol hbase hpath dir
  rw [noteParts, List.forall_mem_append, List.forall_mem_append, List.forall_mem_singleton,
    List.forall_mem_singleton, and_iff_left hlink, and_iff_right hheading]
  split
  · next hempty =>
    -- A body that is left out is empty, and so uniform.
    rw [String.isEmpty_iff.mp hempty]
    exact iff_of_true (List.forall_mem_nil _) Text.uniform_nil
  · rw [List.forall_mem_singleton]

/-- **A document is uniform** iff the bodies of its notes are. -/
theorem uniform_render_iff {notes : List Note}
    (htitles : ∀ note ∈ notes, ∀ c ∈ note.title.toList, Text.isBreak c = false)
    (hpaths : ∀ note ∈ notes, ∀ c ∈ note.path.text.toList, Text.isBreak c = false) (dir : Path) :
    Text.Uniform options.eol.toList (render options dir notes).toList ↔
      ∀ note ∈ notes, Text.Uniform options.eol.toList note.body.toList := by
  by_cases hne : notes = []
  · subst hne
    exact iff_of_true Text.uniform_nil nofun
  · have hnotes : (∀ part ∈ notes.flatMap (noteParts options dir),
          Text.Uniform options.eol.toList part.toList) ↔
        ∀ note ∈ notes, Text.Uniform options.eol.toList note.body.toList := by
      rw [List.forall_mem_flatMap]
      exact forall₂_congr fun note hnote =>
        uniform_noteParts heol hoptions hbase (htitles note hnote) (hpaths note hnote) dir
    rw [toList_render options dir hne, textOf, uniform_flatMap heol, parts, List.forall_mem_cons,
      and_iff_right (uniform_title heol hoptions), hnotes]

end Parts

/-! ### Documents of comments and of sources -/

section Sources

variable {sep : List Char} (hsep : Text.IsSeparator sep)

include hsep

/-- The body of a note is uniform if the source of the file is. -/
theorem uniform_body_of_mem_extract {path : Path} {source : String} {found : List Note}
    {note : Note} (h : Source.extract path source = .ok found) (hnote : note ∈ found)
    (hsource : Text.Uniform sep source.toList) : Text.Uniform sep note.body.toList := by
  have htext : Text.Uniform sep
      (Source.neutralizeShebang (Language.ofPath path) source).toList := by
    rw [Source.neutralizeShebang_eq, String.toList_append]
    refine hsource.append_left hsep fun c hc => ?_
    rw [Source.eq_slash_of_mem_shebangMark _ _ hc]
    rfl
  have htrimmed : Text.Trimmed note.body.toList := by
    obtain ⟨node, -, f, hf, rfl⟩ := Source.exists_node_of_mem_extract h hnote
    exact (Marker.shape_of_parse? hf).2.2
  have hspace : ∀ {c : Char}, Text.isSpace c = false → Text.isBreak c = false :=
    fun hc => eq_false_of_ne_true (mt Text.isSpace_of_isBreak (ne_true_of_eq_false hc))
  exact htext.of_isInfix hsep (Source.body_infix_of_mem_extract h hnote)
    (fun c hc => hspace (htrimmed.1 c hc)) (fun c hc => hspace (htrimmed.2 c hc))

end Sources

theorem isSeparator_eol {options : RenderOptions}
    (h : options.eol = "\n" ∨ options.eol = "\r\n") : Text.IsSeparator options.eol.toList := by
  rcases h with h | h <;> rw [h] <;> exact ⟨by simp, by simp [Text.isBreak], by simp⟩

/-- **When a document has one line separator throughout.**  Let notes be read from comments.  No
piece of their document between its separators has a line break in it iff the bodies are like that,
which is to say that every line break of the document belongs to a separator.  It is so if the
sources that the notes come from end their lines with the separator. -/
theorem uniform_iff_bodies {options : RenderOptions} (hoptions : options.validate = .ok ())
    (heol : options.eol = "\n" ∨ options.eol = "\r\n")
    (hbase : ∀ c ∈ options.base.toList, c ≠ '\r' ∧ c ≠ '\n') {notes : List Note}
    (hnotes : ∀ note ∈ notes, ∃ path comments, note ∈ Source.notesOfComments path comments)
    (hpaths : ∀ note ∈ notes, ∀ c ∈ note.path.text.toList, c ≠ '\r' ∧ c ≠ '\n') (dir : Path) :
    let sep := options.eol.toList
    let document := (render options dir notes).toList
    (Text.Uniform sep document ↔ ∀ note ∈ notes, Text.Uniform sep note.body.toList) ∧
    (Text.Uniform sep document ↔ Text.Covered sep document) ∧
    ((∀ note ∈ notes, ∃ source found, Source.extract note.path source = .ok found ∧ note ∈ found ∧
      Text.Uniform sep source.toList) → Text.Uniform sep document) := by
  intro sep document
  have hsep : Text.IsSeparator sep := isSeparator_eol heol
  have htitles : ∀ note ∈ notes, ∀ c ∈ note.title.toList, Text.isBreak c = false := by
    intro note hnote
    obtain ⟨path, comments, hmem⟩ := hnotes note hnote
    obtain ⟨comment, -, hread⟩ := List.mem_filterMap.mp hmem
    obtain ⟨f, hf, rfl⟩ := Option.map_eq_some_iff.mp hread
    exact (Marker.shape_of_parse? hf).1
  have hbodies : Text.Uniform sep document ↔
      ∀ note ∈ notes, Text.Uniform sep note.body.toList :=
    uniform_render_iff hsep hoptions
      (fun c hc => Text.isBreak_eq_false_iff.mpr (hbase c hc)) htitles
      (fun note hnote c hc => Text.isBreak_eq_false_iff.mpr (hpaths note hnote c hc)) dir
  refine ⟨hbodies, Text.uniform_iff_covered hsep document, fun hsources => ?_⟩
  refine hbodies.mpr fun note hnote => ?_
  obtain ⟨source, found, hextract, hfound, hsource⟩ := hsources note hnote
  exact uniform_body_of_mem_extract hsep hextract hfound hsource

/-- The note of a comment whose lines end with a carriage return and a line feed. -/
def returnsNote : Note :=
  ⟨⟨[5], by decide, by decide⟩, "T", "a\r\nb", ⟨"/repo/a.js"⟩, ⟨1, 4⟩⟩

theorem uniform_iff_bodies_of_returns :
    let options : RenderOptions := { eol := "\r\n" }
    let source := "/* Architecture Note #5: T\r\na\r\nb\r\n*/\r\n"
    let document := (render options ⟨"/repo"⟩ [returnsNote]).toList
    Source.extract ⟨"/repo/a.js"⟩ source = .ok [returnsNote] ∧
    Text.Uniform "\r\n".toList source.toList ∧ Text.Uniform "\r\n".toList document ∧
    Text.Covered "\r\n".toList document := by
  intro options source document
  have hextract : Source.extract ⟨"/repo/a.js"⟩ source = .ok [returnsNote] := by decide +kernel
  have hsource : Text.Uniform "\r\n".toList source.toList := by decide +kernel
  have hread : ∀ note ∈ [returnsNote], ∃ path comments,
      note ∈ Source.notesOfComments path comments :=
    List.forall_mem_singleton.mpr ⟨⟨"/repo/a.js"⟩,
      [⟨" Architecture Note #5: T\r\na\r\nb\r\n", ⟨1, 4⟩⟩], by decide +kernel⟩
  have hvalid : options.validate = .ok () := by decide
  obtain ⟨-, hcovered, huniform⟩ := uniform_iff_bodies hvalid (.inr rfl) (by simp [options]) hread
    (List.forall_mem_singleton.mpr (by simp [returnsNote])) ⟨"/repo"⟩
  have hdocument := huniform (List.forall_mem_singleton.mpr
    ⟨source, [returnsNote], hextract, List.mem_cons_self, hsource⟩)
  exact ⟨hextract, hsource, hdocument, hcovered.mp hdocument⟩

/-- The lines of a body end as those of its comment do, whatever the separator is. -/
theorem mixed_separators :
    let feeds := Source.notesOfComments ⟨"/repo/a.js"⟩
      [⟨" Architecture Note #1: T\na\nb\n", ⟨1, 4⟩⟩]
    let returns := Source.notesOfComments ⟨"/repo/a.js"⟩
      [⟨" Architecture Note #1: T\r\na\r\nb\r\n", ⟨1, 4⟩⟩]
    (RenderOptions.validate ⟨"\r\n", "#", "."⟩ = .ok () ∧
      render ⟨"\r\n", "#", "."⟩ ⟨"/repo"⟩ feeds = "# Architecture Notes\r\n\r\n## T\r\n\r\n" ++
        "a\nb\r\n\r\n[See in context](./a.js#L1-L4)\r\n\r\n" ∧
      ¬ Text.Uniform "\r\n".toList (render ⟨"\r\n", "#", "."⟩ ⟨"/repo"⟩ feeds).toList) ∧
    RenderOptions.validate ⟨"\n", "#", "."⟩ = .ok () ∧
      render ⟨"\n", "#", "."⟩ ⟨"/repo"⟩ returns = "# Architecture Notes\n\n## T\n\n" ++
        "a\r\nb\n\n[See in context](./a.js#L1-L4)\n\n" ∧
      ¬ Text.Uniform "\n".toList (render ⟨"\n", "#", "."⟩ ⟨"/repo"⟩ returns).toList := by
  refine ⟨⟨rfl, ?_, ?_⟩, rfl, ?_, ?_⟩ <;> decide +kernel

end Document

end CodeNotes
