import CodeNotes.Proofs.Source.Delimiters
import CodeNotes.Source.Extract

/-!
# Interpreter lines

A first line that names an interpreter is made a comment by a mark before the text
(`Source.neutralizeShebang_eq`).  The mark has no line feed in it, so it moves nothing to another
line, and whatever stands behind the first line keeps its column as well
(`Position.row_after_append`, `Position.after_append`).  A stretch of the text has the same
characters and the same lines as before, only at other offsets (`Span.text_shift`,
`Span.lines_shift`).

The line itself is never a note.  What a comment at the start of the text says, starts with `#`, `!`
or `/` once its delimiters are off (`Comment.exists_strip_start`), and no marker does
(`Source.parse?_ofNode_eq_none`).  So the notes of such a file are all read from other comments.
-/

namespace CodeNotes

/-! ### Positions behind a mark -/

namespace Position

variable {mark before : List Char}

theorem row_after_append (hmark : '\n' ∉ mark) :
    (after (mark ++ before)).row = (after before).row := by
  rw [after, after, List.count_append, List.count_eq_zero.mpr hmark, Nat.zero_add]

/-- Behind the first line feed the column does not change either. -/
theorem after_append (hmark : '\n' ∉ mark) (hbefore : '\n' ∈ before) :
    after (mark ++ before) = after before := by
  obtain ⟨since, front, hsplit, hnone⟩ :=
    List.eq_append_cons_of_mem (List.mem_reverse.mpr hbefore)
  have hline : ∀ rest, (since ++ '\n' :: rest).takeWhile (· != '\n') = since := by
    intro rest
    refine Text.takeWhile_append_stop (fun c hc => bne_iff_ne.mpr ?_) ?_
    · rintro rfl
      exact hnone hc
    · rintro c ⟨⟩
      rfl
  have hsince : sinceBreak (mark ++ before) = sinceBreak before := by
    rw [sinceBreak, sinceBreak, List.reverse_append, hsplit, List.append_assoc, List.cons_append,
      hline, hline]
  have hrow : (after (mark ++ before)).row = (after before).row := row_after_append hmark
  rw [after, after] at hrow ⊢
  rw [hsince, Position.mk.injEq]
  exact ⟨hrow, rfl⟩

end Position

namespace Span

/-- A span that starts and stops `n` characters later. -/
def shift (n : Nat) (s : Span) : Span :=
  ⟨n + s.start, n + s.stop⟩

variable (s : Span) (mark source : List Char)

theorem text_shift : (s.shift mark.length).text (mark ++ source) = s.text source := by
  rw [text, text, shift, List.drop_length_add_append, Nat.add_sub_add_left]

variable {mark}

theorem lines_shift (hmark : '\n' ∉ mark) :
    (s.shift mark.length).lines (mark ++ source) = s.lines source := by
  have hstart : ((s.shift mark.length).startPosition (mark ++ source)).row
      = (s.startPosition source).row := by
    rw [startPosition, startPosition, shift, List.take_length_add_append,
      Position.row_after_append hmark]
  have hstop : ((s.shift mark.length).stopPosition (mark ++ source)).row
      = (s.stopPosition source).row := by
    rw [stopPosition, stopPosition, shift, List.take_length_add_append,
      Position.row_after_append hmark]
  -- The column counts only for a span that stops behind a line feed, where it is the same.
  have hcolumn : (s.startPosition source).row < (s.stopPosition source).row →
      (s.shift mark.length).stopPosition (mark ++ source) = s.stopPosition source := by
    intro hrow
    have hfeed : '\n' ∈ source.take s.stop := List.count_pos_iff.mp (Nat.zero_lt_of_lt hrow)
    rw [stopPosition, stopPosition, shift, List.take_length_add_append,
      Position.after_append hmark hfeed]
  rw [lines, lines, hstart, hstop]
  by_cases hrow : (s.startPosition source).row < (s.stopPosition source).row
  · rw [hcolumn hrow]
  · simp only [hrow, and_false, if_false]

end Span

/-! ### Comments at the start of a text -/

/-- A text is no note if it starts with neither white space nor the first letter of a marker. -/
theorem Marker.parse?_eq_none_of_start {t : String} {a : Char} {rest : List Char}
    (ht : t.toList <+: a :: rest) (hspace : Text.isSpace a = false) (ha : a ≠ 'A') :
    parse? t = none := by
  apply parse?_eq_none
  rintro ⟨m, hm⟩
  rw [← hm, Layout.text] at ht
  cases hlead : m.lead with
  | nil =>
    rw [hlead] at ht
    exact ha (List.cons_prefix_cons.mp ht).1.symm
  | cons c lead =>
    have hc := m.lead_space c (hlead ▸ List.mem_cons_self)
    rw [hlead, List.cons_append] at ht
    rw [(List.cons_prefix_cons.mp ht).1, hspace] at hc
    exact Bool.false_ne_true hc

namespace Comment

theorem lineText_prefix_self (cs : List Char) : lineText cs <+: cs :=
  List.rdropWhile_prefix Text.isBreak cs

/-- What a comment says that starts as an interpreter line does, with or without the mark before it,
goes on as that line. -/
theorem exists_strip_start {raw x : List Char}
    (h : raw <+: '/' :: '/' :: '#' :: '!' :: x ∨ raw <+: '#' :: '!' :: x) :
    ∃ a ∈ ['#', '!', '/'], ∃ rest, strip raw <+: a :: rest := by
  rcases h with h | h
  · rcases List.prefix_cons_iff.mp h with rfl | ⟨raw, rfl, hraw⟩
    · exact ⟨'/', by decide, [], List.nil_prefix⟩
    rcases List.prefix_cons_iff.mp hraw with rfl | ⟨inner, rfl, hinner⟩
    · exact ⟨'/', by decide, [], List.prefix_rfl⟩
    -- No character is taken for one more mark of the opening.
    have hmark : dropMark '/' '!' inner = inner := by
      refine dropMark_eq_self fun c hc => ?_
      rcases List.prefix_cons_iff.mp hinner with rfl | ⟨line, rfl, -⟩
      · nomatch hc
      · obtain rfl := Option.some.inj hc
        decide
    refine ⟨'#', by decide, '!' :: x, ?_⟩
    show lineText (dropMark '/' '!' inner) <+: '#' :: '!' :: x
    rw [hmark]
    exact (lineText_prefix_self inner).trans hinner
  · rcases List.prefix_cons_iff.mp h with rfl | ⟨inner, rfl, hinner⟩
    · exact ⟨'!', by decide, [], List.nil_prefix⟩
    · exact ⟨'!', by decide, x, (lineText_prefix_self inner).trans hinner⟩

/-- **The comment of an interpreter line is no note**, whatever follows on the line. -/
theorem parse?_strip_eq_none {raw x : List Char}
    (h : raw <+: '/' :: '/' :: '#' :: '!' :: x ∨ raw <+: '#' :: '!' :: x) :
    Marker.parse? (String.ofList (strip raw)) = none := by
  obtain ⟨a, ha, rest, hpre⟩ := exists_strip_start h
  have hother : ∀ a ∈ ['#', '!', '/'], Text.isSpace a = false ∧ a ≠ 'A' := by
    simp [Text.isSpace]
  rw [← String.toList_ofList (l := strip raw)] at hpre
  exact Marker.parse?_eq_none_of_start hpre (hother a ha).1 (hother a ha).2

end Comment

/-! ### What is put before a text -/

namespace Source

theorem toList_shebang (blanks rest : String) : ("#!" ++ blanks ++ "/" ++ rest).toList
    = ['#', '!'] ++ (blanks.toList ++ '/' :: rest.toList) := by
  simp only [String.toList_append, List.append_assoc]
  rfl

/-- A text names an interpreter iff it starts with `#!`, spaces or tabs, and a slash. -/
theorem hasShebang_iff {source : String} :
    hasShebang source.toList = true ↔ ∃ blanks rest : String,
      (∀ c ∈ blanks.toList, c = ' ' ∨ c = '\t') ∧ source = "#!" ++ blanks ++ "/" ++ rest := by
  constructor
  · intro h
    rw [hasShebang] at h
    cases hafter : Text.afterPrefix? ['#', '!'] source.toList with
    | none =>
      rw [hafter] at h
      nomatch h
    | some line =>
      rw [hafter] at h
      obtain ⟨rest, hrest⟩ := List.head?_eq_some_iff.mp (eq_of_beq h)
      refine ⟨String.ofList (line.takeWhile fun c => c == ' ' || c == '\t'), String.ofList rest,
        fun c hc => ?_, ?_⟩
      · rw [String.toList_ofList] at hc
        simpa using List.mem_takeWhile_imp hc
      · apply String.toList_inj.mp
        rw [toList_shebang, String.toList_ofList, String.toList_ofList, ← hrest,
          List.takeWhile_append_dropWhile]
        exact Marker.eq_append_of_afterPrefix? hafter
  · rintro ⟨blanks, rest, hblanks, rfl⟩
    have hline : (blanks.toList ++ '/' :: rest.toList).dropWhile (fun c => c == ' ' || c == '\t')
        = '/' :: rest.toList := by
      refine Text.dropWhile_append_stop (fun c hc => ?_) ?_
      · rcases hblanks c hc with rfl | rfl <;> rfl
      · rintro c ⟨⟩
        rfl
    rw [hasShebang, toList_shebang, Text.afterPrefix?_append]
    simp only [hline, List.head?_cons, beq_self_eq_true]

/-- What is put before a text. -/
def shebangMark (language : Language) (source : String) : String :=
  if language ≠ .python ∧ hasShebang source.toList = true then "//" else ""

variable (language : Language) (source : String)

theorem neutralizeShebang_eq :
    neutralizeShebang language source = shebangMark language source ++ source := by
  rw [neutralizeShebang, shebangMark]
  cases language <;> cases hasShebang source.toList <;> simp [Language.lineCommentPrefix?]

theorem shebangMark_cases :
    (shebangMark language source = "//" ∧ language ≠ .python ∧ hasShebang source.toList = true) ∨
    (shebangMark language source = "" ∧
      ¬(language ≠ .python ∧ hasShebang source.toList = true)) := by
  rw [shebangMark]
  split
  · next h => exact .inl ⟨rfl, h⟩
  · next h => exact .inr ⟨rfl, h⟩

theorem eq_slash_of_mem_shebangMark {c : Char} (hc : c ∈ (shebangMark language source).toList) :
    c = '/' := by
  have hslashes : ∀ c ∈ "//".toList, c = '/' := by simp
  rcases shebangMark_cases language source with ⟨hmark, -⟩ | ⟨hmark, -⟩
  · exact hslashes c (hmark ▸ hc)
  · rw [hmark] at hc
    exact absurd hc List.not_mem_nil

/-- Only what is put before a text keeps it from being as it was. -/
theorem neutralizeShebang_eq_mark_iff :
    neutralizeShebang language source = "//" ++ source ↔
      language ≠ .python ∧ hasShebang source.toList = true := by
  rw [neutralizeShebang_eq]
  rcases shebangMark_cases language source with ⟨hmark, h⟩ | ⟨hmark, h⟩
  · exact iff_of_true (by rw [hmark]) h
  · refine iff_of_false (fun heq => ?_) h
    have hlength := congrArg String.length heq
    rw [hmark, String.length_append, String.length_append] at hlength
    have hempty : "".length = 0 ∧ "//".length = 2 := by decide
    omega

theorem neutralizeShebang_idempotent :
    neutralizeShebang language (neutralizeShebang language source)
      = neutralizeShebang language source := by
  rcases shebangMark_cases language source with ⟨hmark, -⟩ | ⟨hmark, -⟩
  · -- The mark before the text is no interpreter line.
    have hnone : hasShebang ("//" ++ source).toList = false := by
      rw [String.toList_append]
      rfl
    rw [neutralizeShebang_eq language source, hmark, neutralizeShebang_eq, shebangMark, hnone,
      if_neg (fun h => nomatch h.2), String.empty_append]
  · have hself : neutralizeShebang language source = source := by
      rw [neutralizeShebang_eq, hmark, String.empty_append]
    rw [hself, hself]

variable {language source}

/-- The comment at the start of a text that starts with `#!` is no note. -/
theorem parse?_ofNode_eq_none {node : Tree} {x : List Char}
    (hsource : source.toList = '#' :: '!' :: x) (hstart : node.span.start = 0) :
    Marker.parse? (Comment.ofNode (neutralizeShebang language source).toList node).text = none := by
  have hraw : node.span.text (neutralizeShebang language source).toList
      <+: (shebangMark language source).toList ++ '#' :: '!' :: x := by
    rw [Span.text, hstart, List.drop_zero, neutralizeShebang_eq, String.toList_append, hsource]
    exact List.take_prefix _ _
  apply Comment.parse?_strip_eq_none (x := x)
  rcases shebangMark_cases language source with ⟨hmark, -⟩ | ⟨hmark, -⟩
  · rw [hmark] at hraw
    exact .inl hraw
  · rw [hmark] at hraw
    exact .inr hraw

/-! ### Notes of a file -/

/-- A note of a file is read from a comment of the tree of its text. -/
theorem exists_node_of_mem_extract {path : Path} {notes : List Note} {note : Note}
    (h : extract path source = .ok notes) (hnote : note ∈ notes) :
    let language := Language.ofPath path
    let text := (neutralizeShebang language source).toList
    ∃ node ∈ (parse language text).outermost fun t => language.isCommentKind t.kind,
      ∃ f, Marker.parse? (Comment.ofNode text node).text = some f ∧
        note = f.at path (Comment.ofNode text node).lines := by
  intro language text
  rw [extract] at h
  cases hfound : commentsOfFile path source with
  | error fault =>
    rw [hfound] at h
    nomatch h
  | ok found =>
    rw [hfound] at h
    obtain rfl := Except.ok.inj h
    obtain ⟨comment, hcomment, hread⟩ := List.mem_filterMap.mp hnote
    obtain ⟨f, hf, rfl⟩ := Option.map_eq_some_iff.mp hread
    rw [commentsOfFile, comments, commentsOfTree] at hfound
    split at hfound
    · nomatch hfound
    · obtain rfl := Except.ok.inj hfound
      obtain ⟨node, hnode, rfl⟩ := List.mem_map.mp hcomment
      exact ⟨node, hnode, f, hf, rfl⟩

/-- **Interpreter lines do no harm.**  A text is left as it is or gets `//` before it, the latter
iff the language is not Python and the text starts with `#!`, spaces or tabs, and a slash; an
attribute of Rust is none of these.  Doing it again changes nothing.  Every character stays on its
line, those behind the first line feed also in their column, and a stretch of the text has the same
characters and lines at its new offsets.  The comment of the interpreter line is no note, whatever
the line goes on with, so a note of a file that starts with `#!` is read from a comment that starts
later. -/
theorem neutralizeShebang_harmless (language : Language) (source : String) :
    let neutral := neutralizeShebang language source
    (neutral = source ∨ neutral = "//" ++ source) ∧
    (neutral = "//" ++ source ↔ language ≠ .python ∧ ∃ blanks rest : String,
      (∀ c ∈ blanks.toList, c = ' ' ∨ c = '\t') ∧ source = "#!" ++ blanks ++ "/" ++ rest) ∧
    (∀ rest, source = "#![" ++ rest → neutral = source) ∧
    neutralizeShebang language neutral = neutral ∧
    (∃ mark : String, neutral = mark ++ source ∧
      (∀ before c after, source.toList = before ++ c :: after →
        (Position.after (mark.toList ++ before)).row = (Position.after before).row ∧
        ('\n' ∈ before → Position.after (mark.toList ++ before) = Position.after before)) ∧
      ∀ span : Span,
        (span.shift mark.length).text neutral.toList = span.text source.toList ∧
        (span.shift mark.length).lines neutral.toList = span.lines source.toList) ∧
    (∀ x : String,
      Marker.parse? (String.ofList (Comment.strip ("//#!" ++ x).toList)) = none ∧
      Marker.parse? (String.ofList (Comment.strip ("#!" ++ x).toList)) = none) ∧
    ∀ path x notes, Language.ofPath path = language → source = "#!" ++ x →
      extract path source = .ok notes → ∀ note ∈ notes,
      ∃ node ∈ (parse language neutral.toList).outermost fun t => language.isCommentKind t.kind,
        0 < node.span.start ∧
        ∃ f, Marker.parse? (Comment.ofNode neutral.toList node).text = some f ∧
          note = f.at path (Comment.ofNode neutral.toList node).lines := by
  intro neutral
  have hneutral : neutral = shebangMark language source ++ source :=
    neutralizeShebang_eq language source
  have hfeed : '\n' ∉ (shebangMark language source).toList :=
    fun hmem => absurd (eq_slash_of_mem_shebangMark language source hmem) (by decide)
  refine ⟨?_, ?_, ?_, neutralizeShebang_idempotent language source,
    ⟨shebangMark language source, hneutral, ?_, ?_⟩, ?_, ?_⟩
  · rcases shebangMark_cases language source with ⟨hmark, -⟩ | ⟨hmark, -⟩
    · exact .inr (by rw [hneutral, hmark])
    · exact .inl (by rw [hneutral, hmark, String.empty_append])
  · rw [← hasShebang_iff]
    exact neutralizeShebang_eq_mark_iff language source
  · rintro rest rfl
    have hnone : hasShebang ("#![" ++ rest).toList = false := by
      rw [String.toList_append]
      rfl
    rw [hneutral, shebangMark, hnone, if_neg (fun h => nomatch h.2), String.empty_append]
  · intro before c after _
    exact ⟨Position.row_after_append hfeed, Position.after_append hfeed⟩
  · intro span
    rw [hneutral, String.toList_append, ← String.length_toList]
    exact ⟨span.text_shift _ _, span.lines_shift _ hfeed⟩
  · intro x
    rw [String.toList_append, String.toList_append]
    exact ⟨Comment.parse?_strip_eq_none (.inl List.prefix_rfl),
      Comment.parse?_strip_eq_none (.inr List.prefix_rfl)⟩
  · rintro path x notes rfl hsource hnotes note hnote
    obtain ⟨node, hnode, f, hf, hat⟩ := exists_node_of_mem_extract hnotes hnote
    refine ⟨node, hnode, Nat.pos_of_ne_zero fun hstart => ?_, f, hf, hat⟩
    have htext : source.toList = '#' :: '!' :: x.toList := by
      rw [hsource, String.toList_append]
      rfl
    rw [parse?_ofNode_eq_none htext hstart] at hf
    nomatch hf

/-- A script whose first line has a marker in it, with a note on the second line. -/
def toolSource : String :=
  "#! /usr/bin/env node // Architecture Note #3: A\n// Architecture Note #9: B\n"

/-- The only note of the script. -/
def toolNote : Note :=
  ⟨⟨[9], by decide, by decide⟩, "B", "", ⟨"bin/tool"⟩, ⟨2, 2⟩⟩

theorem neutralizeShebang_harmless_tool :
    neutralizeShebang .javaScript toolSource = "//" ++ toolSource ∧
    neutralizeShebang .rust "#![allow(unused)]\n" = "#![allow(unused)]\n" ∧
    extract ⟨"bin/tool"⟩ toolSource = .ok [toolNote] ∧
    ∃ node ∈ (parse .javaScript ("//" ++ toolSource).toList).outermost fun t =>
        Language.javaScript.isCommentKind t.kind,
      0 < node.span.start ∧
      ∃ f, Marker.parse? (Comment.ofNode ("//" ++ toolSource).toList node).text = some f ∧
        toolNote = f.at ⟨"bin/tool"⟩ (Comment.ofNode ("//" ++ toolSource).toList node).lines := by
  obtain ⟨-, hmark, -, -, -, -, hnotes⟩ := neutralizeShebang_harmless .javaScript toolSource
  obtain ⟨-, -, hattribute, -⟩ := neutralizeShebang_harmless .rust "#![allow(unused)]\n"
  have hneutral : neutralizeShebang .javaScript toolSource = "//" ++ toolSource :=
    hmark.mpr ⟨by decide, " ",
      "usr/bin/env node // Architecture Note #3: A\n// Architecture Note #9: B\n", by simp,
      by decide⟩
  have hextract : extract ⟨"bin/tool"⟩ toolSource = .ok [toolNote] := by decide +kernel
  rw [hneutral] at hnotes
  exact ⟨hneutral, hattribute "allow(unused)]\n" (by decide), hextract,
    hnotes ⟨"bin/tool"⟩
      " /usr/bin/env node // Architecture Note #3: A\n// Architecture Note #9: B\n"
      [toolNote] (by decide) (by decide) hextract toolNote List.mem_cons_self⟩

end Source

end CodeNotes
