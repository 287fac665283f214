import CodeNotes.Proofs.Note.Marker

/-!
# White space around a note

What is read from a text does not change when white space is put around a note, or when the note is
written anew: the line of its marker, a line feed, and its body (`parse?_written`).

White space in front of a text is passed over before anything is looked at (`read_append_left`).
White space behind a text with a layout goes on with the body if there is one; if the text ends
within the line of the marker, the white space up to its first line break goes on with the title and
the rest becomes the body (`Layout.exists_append`).  Either way it is trimmed off.  A text without a
layout may get one through white space behind it, as `Architecture Note #1:` does through a blank,
but not through line breaks: these always belong to the body, so the layout is there without them
(`exists_layout_of_append_breaks`).
-/

namespace CodeNotes

/-! ### Trimming at the end -/

namespace Text

theorem trim_append_right {cs post : List Char} (hpost : ∀ c ∈ post, isSpace c = true) :
    trim (cs ++ post) = trim cs := by
  by_cases hcs : ∀ c ∈ cs, isSpace c = true
  · rw [trim_eq_nil hcs]
    apply trim_eq_nil
    intro c hc
    exact (List.mem_append.mp hc).elim (hcs c) (hpost c)
  · -- Something other than white space is left at the start, so the white space behind it is
    -- removed from the end only.
    have hstart : trimStart (cs ++ post) = trimStart cs ++ post := by
      rw [trimStart, trimStart, List.dropWhile_append, if_neg]
      rw [List.isEmpty_iff, List.dropWhile_eq_nil_iff]
      exact hcs
    rw [trim, trim, hstart, trimEnd, trimEnd, dropEndWhile_append_of_pos hpost]

theorem trim_of_trimmed {cs : List Char} (h : Trimmed cs) : trim cs = cs := by
  have hsurround : trim ([] ++ cs ++ []) = cs := trim_surround (by simp) h (by simp)
  rwa [List.nil_append, List.append_nil] at hsurround

end Text

namespace Marker

/-! ### White space in front -/

theorem read_append_left {w : String} (hw : ∀ c ∈ w.toList, Text.isSpace c = true) (t : String) :
    read (w ++ t) = read t := by
  have htrim : Text.trimStart (w ++ t).toList = Text.trimStart t.toList := by
    rw [Text.trimStart, String.toList_append, List.dropWhile_append_of_pos hw, Text.trimStart]
  rw [read, read, parts?, parts?, htrim]

theorem parse?_append_left {w : String} (hw : ∀ c ∈ w.toList, Text.isSpace c = true)
    (t : String) : parse? (w ++ t) = parse? t := by
  rw [parse?, parse?, read_append_left hw]

/-! ### White space behind -/

/-- Two layouts that tell the same note: they agree on the groups, and on the line and the body once
these are trimmed. -/
structure Layout.Same (m m' : Layout) : Prop where
  groups : m.groups = m'.groups
  line : Text.trim (m.gap ++ m.title) = Text.trim (m'.gap ++ m'.title)
  body : Text.trim m.body = Text.trim m'.body

/-- The same is read from texts with layouts that tell the same note. -/
theorem Layout.Same.parse?_eq {m m' : Layout} (h : m.Same m') {t t' : String}
    (hm : m.text = t.toList) (hm' : m'.text = t'.toList) : parse? t = parse? t' := by
  rw [parse?, parse?, read, read, ← hm, ← hm', parts?_text, parts?_text, h.groups]
  simp only [h.line, h.body]

/-- White space can be put behind a text with a layout. -/
theorem Layout.exists_append (m : Layout) {w : List Char} (hw : ∀ c ∈ w, Text.isSpace c = true) :
    ∃ m' : Layout, m'.text = m.text ++ w ∧ m.Same m' := by
  cases hbody : m.body with
  | cons b body =>
    -- The white space stands behind the body.
    have hhead : ∀ c ∈ (m.body ++ w).head?, Text.isBreak c = true := by
      rw [hbody, List.cons_append, List.head?_cons, ← List.head?_cons (a := b) (l := body), ← hbody]
      exact m.body_break
    refine ⟨{ m with body := m.body ++ w, body_break := hhead }, ?_, rfl, rfl, ?_⟩
    · simp only [Layout.text, List.append_assoc, List.cons_append]
    · exact (Text.trim_append_right hw).symm
  | nil =>
    -- The white space stands behind the title, and what follows its first line break is the body.
    have hline : ∀ c ∈ w.takeWhile (!Text.isBreak ·), Text.isSpace c = true :=
      fun c hc => hw c ((List.takeWhile_sublist _).subset hc)
    have hrest : ∀ c ∈ w.dropWhile (!Text.isBreak ·), Text.isSpace c = true :=
      fun c hc => hw c ((List.dropWhile_sublist _).subset hc)
    have htitle : ∀ c ∈ m.title ++ w.takeWhile (!Text.isBreak ·), Text.isBreak c = false := by
      intro c hc
      rcases List.mem_append.mp hc with hc | hc
      · exact m.title_line c hc
      · have hstays := List.mem_takeWhile_imp hc
        simpa using hstays
    refine ⟨{ m with
      title := m.title ++ w.takeWhile (!Text.isBreak ·)
      body := w.dropWhile (!Text.isBreak ·)
      title_line := htitle
      body_break := head?_dropWhile_not_isBreak w }, ?_, rfl, ?_, ?_⟩
    · simp only [Layout.text, hbody, List.append_assoc, List.cons_append, List.append_nil,
        List.takeWhile_append_dropWhile]
    · simp only [← List.append_assoc]
      exact (Text.trim_append_right hline).symm
    · rw [hbody, Text.trim_eq_nil hrest]
      rfl

/-! ### Line breaks behind -/

/-- The text of a layout up to the end of the line of the marker. -/
def Layout.front (m : Layout) : List Char :=
  m.lead ++ ("Architecture Note #".toList ++
    (NoteId.joined m.groups ++ ':' :: (m.gap ++ m.title)))

theorem Layout.text_eq_front (m : Layout) : m.text = m.front ++ m.body := by
  simp only [Layout.text, Layout.front, List.append_assoc, List.cons_append]

theorem Layout.getLast?_front (m : Layout) :
    ∃ c, m.front.getLast? = some c ∧ Text.isBreak c = false := by
  have hne : m.gap ++ m.title ≠ [] := fun hnil => m.gap_ne_nil (List.append_eq_nil_iff.mp hnil).1
  refine ⟨(m.gap ++ m.title).getLast hne, ?_, ?_⟩
  · rw [Layout.front, ← List.append_assoc, ← List.append_assoc, ← List.singleton_append,
      ← List.append_assoc, List.getLast?_append_of_ne_nil _ hne, List.getLast?_eq_some_getLast hne]
  · exact m.not_isBreak_of_mem_line (List.getLast_mem hne)

/-- Line breaks behind a text with a layout belong to the body, so the layout is there without
them. -/
theorem exists_layout_of_append_breaks {m : Layout} {cs breaks : List Char}
    (hm : m.text = cs ++ breaks) (hbreaks : ∀ c ∈ breaks, Text.isBreak c = true) :
    ∃ m' : Layout, m'.text = cs := by
  obtain ⟨c, hlast, hc⟩ := m.getLast?_front
  rw [m.text_eq_front] at hm
  rcases List.append_eq_append_iff.mp hm with ⟨body, hcs, hbody⟩ | ⟨extra, hfront, hextra⟩
  · have hhead : ∀ c ∈ body.head?, Text.isBreak c = true := by
      intro c hc
      refine m.body_break c ?_
      rw [hbody, List.head?_append, hc]
      rfl
    refine ⟨{ m with body := body, body_break := hhead }, ?_⟩
    rw [Layout.text_eq_front, hcs]
    rfl
  · -- The line would end in line breaks, unless nothing of it is cut off.
    cases extra using List.reverseRecOn with
    | nil =>
      refine ⟨{ m with body := [], body_break := by simp }, ?_⟩
      rw [Layout.text_eq_front, List.append_nil]
      rw [List.append_nil] at hfront
      exact hfront
    | append_singleton extra b =>
      rw [hfront, ← List.append_assoc, List.getLast?_concat, Option.some.injEq] at hlast
      have hb : Text.isBreak b = true := hbreaks b (by simp [hextra])
      rw [hlast, hc] at hb
      nomatch hb

theorem parse?_eq_none {t : String} (h : ¬ ∃ m : Layout, m.text = t.toList) : parse? t = none := by
  by_contra hsome
  obtain ⟨m, hm, -⟩ := exists_layout_of_parse? (Option.isSome_iff_ne_none.mpr hsome)
  exact h ⟨m, hm⟩

theorem parse?_append_breaks (t : String) {w : String}
    (hw : ∀ c ∈ w.toList, Text.isBreak c = true) : parse? (t ++ w) = parse? t := by
  by_cases hlayout : ∃ m : Layout, m.text = t.toList
  · obtain ⟨m, hm⟩ := hlayout
    obtain ⟨m', htext, hsame⟩ := m.exists_append fun c hc => Text.isSpace_of_isBreak (hw c hc)
    refine (hsame.parse?_eq hm ?_).symm
    rw [htext, hm, String.toList_append]
  · rw [parse?_eq_none hlayout, parse?_eq_none]
    rintro ⟨m, hm⟩
    rw [String.toList_append] at hm
    exact hlayout (exists_layout_of_append_breaks hm hw)

/-! ### Notes written anew -/

/-- What is read has a title of one line, and title and body are trimmed. -/
theorem shape_of_parse? {t : String} {f : Fragment} (h : parse? t = some f) :
    (∀ c ∈ f.title.toList, Text.isBreak c = false) ∧ Text.Trimmed f.title.toList ∧
      Text.Trimmed f.body.toList := by
  obtain ⟨m, hm, -⟩ := exists_layout_of_parse? (Option.isSome_iff_exists.mpr ⟨f, h⟩)
  obtain ⟨-, htitle, hbody⟩ := eq_of_parse? h hm
  rw [htitle, hbody]
  exact ⟨fun c hc => m.not_isBreak_of_mem_line (Text.mem_of_mem_trim hc), Text.trimmed_trim _,
    Text.trimmed_trim _⟩

/-- **A note that is written anew is read as the note.** -/
theorem parse?_written {t : String} {f : Fragment} (h : parse? t = some f) :
    parse? (line f.id f.title ++ "\n" ++ f.body) = some f := by
  obtain ⟨hline, htitle, hbody⟩ := shape_of_parse? h
  have htext : line f.id f.title ++ "\n" ++ f.body = String.ofList
      ([] ++ (line f.id f.title).toList ++ '\n' :: f.body.toList) := by
    apply String.toList_inj.mp
    rw [String.toList_ofList, String.toList_append, String.toList_append, List.append_assoc,
      List.nil_append]
    rfl
  have htrimTitle : Text.trim (' ' :: f.title.toList) = f.title.toList := by
    rw [← List.singleton_append, Text.trim_append_of_isSpace (List.forall_mem_singleton.mpr rfl),
      Text.trim_of_trimmed htitle]
  have htrimBody : Text.trim ('\n' :: f.body.toList) = f.body.toList := by
    rw [← List.singleton_append, Text.trim_append_of_isSpace (List.forall_mem_singleton.mpr rfl),
      Text.trim_of_trimmed hbody]
  rw [htext, parse?_line f.id f.title (by simp) hline (by simp [Text.isBreak]), htrimTitle,
    htrimBody, String.ofList_toList, String.ofList_toList]

/-- **Writing a note anew and padding it are harmless.**  What is written for a note is read as the
note, and so is its text with any white space around it.  White space in front of a text and
line breaks behind it change nothing either where the text is no note. -/
theorem parse?_padded (t w w' breaks : String) (hw : ∀ c ∈ w.toList, Text.isSpace c = true)
    (hw' : ∀ c ∈ w'.toList, Text.isSpace c = true)
    (hbreaks : ∀ c ∈ breaks.toList, c = '\r' ∨ c = '\n') :
    (∀ f, parse? t = some f →
      parse? ("Architecture Note #" ++ f.id.display ++ ": " ++ f.title ++ "\n" ++ f.body) = some f ∧
        parse? (w ++ t ++ w') = some f) ∧
    parse? (w ++ t) = parse? t ∧ parse? (t ++ breaks) = parse? t := by
  refine ⟨fun f hf => ⟨parse?_written hf, ?_⟩, parse?_append_left hw t,
    parse?_append_breaks t fun c hc => ?_⟩
  · obtain ⟨m, hm, -⟩ := exists_layout_of_parse? (Option.isSome_iff_exists.mpr ⟨f, hf⟩)
    obtain ⟨m', htext, hsame⟩ := m.exists_append hw'
    have hbehind : parse? t = parse? (t ++ w') :=
      hsame.parse?_eq hm (by rw [htext, hm, String.toList_append])
    rw [String.append_assoc, parse?_append_left hw, ← hbehind, hf]
  · rw [Text.isBreak, Bool.or_eq_true, beq_iff_eq, beq_iff_eq]
    exact hbreaks c hc

/-- A note that ends within its line, written anew and between white space with line breaks and
separators, and a text that no line break makes a note. -/
theorem parse?_padded_separators :
    let id : NoteId := ⟨[1, 2], by decide, by decide⟩
    parse? "Architecture Note #01.2:\u2028A" = some ⟨id, "A", ""⟩ ∧
    parse? ("Architecture Note #" ++ id.display ++ ": " ++ "A" ++ "\n" ++ "") = some ⟨id, "A", ""⟩ ∧
    parse? ("\u2028\r\n" ++ "Architecture Note #01.2:\u2028A" ++ " \u2028\n\t")
      = some ⟨id, "A", ""⟩ ∧
    parse? ("Architecture Note #1:" ++ "\r\n") = none := by
  intro id
  have hread : parse? "Architecture Note #01.2:\u2028A" = some ⟨id, "A", ""⟩ := by decide
  obtain ⟨hnote, -⟩ := parse?_padded "Architecture Note #01.2:\u2028A" "\u2028\r\n" " \u2028\n\t" ""
    (List.all_eq_true.mp (by decide)) (List.all_eq_true.mp (by decide)) (by simp)
  obtain ⟨-, -, hbreaks⟩ := parse?_padded "Architecture Note #1:" "" "" "\r\n" (by simp) (by simp)
    (by simp)
  refine ⟨hread, (hnote _ hread).1, (hnote _ hread).2, ?_⟩
  rw [hbreaks]
  decide

end Marker

end CodeNotes
