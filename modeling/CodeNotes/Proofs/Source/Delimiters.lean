import CodeNotes.Proofs.Note.Padding
import CodeNotes.Source.Comment

/-!
# Comments without their delimiters

There are seven ways to open a comment, three of them for blocks, which are closed as well.  A text
that does not start with a character that could be taken for one more mark of the opening is found
again in each of them: a block gives the text as it is (`Comment.strip_block`), and a line gives it
without the line breaks at its end (`Comment.strip_line`), whatever line breaks follow
(`Comment.strip_append_breaks`).  Line breaks at the end never decide whether a text is a note
(`Marker.parse?_lineText_eq`), so all seven ways give the same note or none
(`Comment.strip_in_every_style`).
-/

namespace CodeNotes

namespace Comment

/-! ### The mark of an opening -/

theorem dropMark_eq_self {a b : Char} {cs : List Char} (h : ∀ c ∈ cs.head?, c ≠ a ∧ c ≠ b) :
    dropMark a b cs = cs := by
  cases cs with
  | nil => rfl
  | cons c cs =>
    obtain ⟨ha, hb⟩ := h c rfl
    rw [dropMark, beq_eq_false_iff_ne.mpr ha, beq_eq_false_iff_ne.mpr hb, Bool.or_false,
      if_neg Bool.false_ne_true]

/-- An opening with or without a mark is taken off as a whole. -/
theorem dropMark_mark {a b : Char} {mark cs : List Char} (hmark : mark ∈ [[], [a], [b]])
    (h : ∀ c ∈ cs.head?, c ≠ a ∧ c ≠ b) : dropMark a b (mark ++ cs) = cs := by
  simp only [List.mem_cons, List.not_mem_nil, or_false] at hmark
  rcases hmark with rfl | rfl | rfl
  · exact dropMark_eq_self h
  · simp [dropMark]
  · simp [dropMark]

theorem dropMark_append {a b : Char} (cs : List Char) {post : List Char}
    (h : ∀ c ∈ post.head?, c ≠ a ∧ c ≠ b) : dropMark a b (cs ++ post) = dropMark a b cs ++ post := by
  cases cs with
  | nil => exact dropMark_eq_self h
  | cons c cs =>
    rw [List.cons_append, dropMark, dropMark]
    split <;> rfl

/-! ### Comments by their openings -/

section Styles

variable {opening : String} {t : List Char}

/-- An opening of a block is `/*` with or without a mark. -/
theorem exists_mark_of_block (h : opening ∈ ["/*", "/**", "/*!"]) :
    ∃ mark ∈ [[], ['*'], ['!']], opening.toList = ['/', '*'] ++ mark := by
  simp only [List.mem_cons, List.not_mem_nil, or_false] at h
  rcases h with rfl | rfl | rfl
  · exact ⟨[], by simp, rfl⟩
  · exact ⟨['*'], by simp, rfl⟩
  · exact ⟨['!'], by simp, rfl⟩

/-- An opening of a line is `#`, or `//` with or without a mark. -/
theorem exists_mark_of_line (h : opening ∈ ["//", "///", "//!", "#"]) :
    opening.toList = ['#'] ∨ ∃ mark ∈ [[], ['/'], ['!']], opening.toList = ['/', '/'] ++ mark := by
  simp only [List.mem_cons, List.not_mem_nil, or_false] at h
  rcases h with rfl | rfl | rfl | rfl
  · exact .inr ⟨[], by simp, rfl⟩
  · exact .inr ⟨['/'], by simp, rfl⟩
  · exact .inr ⟨['!'], by simp, rfl⟩
  · exact .inl rfl

/-- **A text is found again in a block.** -/
theorem strip_block (h : opening ∈ ["/*", "/**", "/*!"]) (ht : ∀ c ∈ t.head?, c ≠ '*' ∧ c ≠ '!') :
    strip (opening.toList ++ t ++ ['*', '/']) = t := by
  obtain ⟨mark, hmark, hopening⟩ := exists_mark_of_block h
  rw [hopening]
  show blockText (mark ++ t ++ ['*', '/']) = t
  rw [blockText, Text.beforeSuffix?_append, Option.getD_some, dropMark_mark hmark ht]

/-- **A text is found again in a line**, without the line breaks at its end. -/
theorem strip_line (h : opening ∈ ["//", "///", "//!", "#"])
    (ht : ∀ c ∈ t.head?, c ≠ '/' ∧ c ≠ '!') : strip (opening.toList ++ t) = lineText t := by
  rcases exists_mark_of_line h with hopening | ⟨mark, hmark, hopening⟩
  · rw [hopening]
    rfl
  · rw [hopening]
    show lineText (dropMark '/' '!' (mark ++ t)) = lineText t
    rw [dropMark_mark hmark ht]

end Styles

/-! ### Line breaks behind a line -/

theorem lineText_append_breaks (cs : List Char) {breaks : List Char}
    (hbreaks : ∀ c ∈ breaks, Text.isBreak c = true) : lineText (cs ++ breaks) = lineText cs :=
  Text.dropEndWhile_append_of_pos hbreaks

/-- Only line breaks are missing from the text of a line. -/
theorem exists_breaks (cs : List Char) :
    ∃ breaks, cs = lineText cs ++ breaks ∧ ∀ c ∈ breaks, Text.isBreak c = true :=
  ⟨cs.rtakeWhile Text.isBreak, List.rdropWhile_append_rtakeWhile.symm,
    fun _ hc => List.mem_rtakeWhile_imp hc⟩

/-- The text of a line does not end in a line break. -/
theorem getLast?_lineText (cs : List Char) :
    ∀ c ∈ (lineText cs).getLast?, Text.isBreak c = false :=
  Text.getLast?_dropEndWhile

/-- **Line breaks behind a line do not count.** -/
theorem strip_append_breaks {raw breaks : List Char} (hraw : ['/', '/'] <+: raw ∨ ['#'] <+: raw)
    (hbreaks : ∀ c ∈ breaks, Text.isBreak c = true) : strip (raw ++ breaks) = strip raw := by
  rcases hraw with ⟨inner, rfl⟩ | ⟨inner, rfl⟩
  · -- No line break can be taken for a mark, should nothing else follow the opening.
    have hmark : ∀ c ∈ breaks.head?, c ≠ '/' ∧ c ≠ '!' := by
      intro c hc
      have hbreak := Text.isBreak_iff.mp (hbreaks c (List.mem_of_head? hc))
      rcases hbreak with rfl | rfl <;> decide
    show lineText (dropMark '/' '!' (inner ++ breaks)) = lineText (dropMark '/' '!' inner)
    rw [dropMark_append inner hmark, lineText_append_breaks _ hbreaks]
  · show lineText (inner ++ breaks) = lineText inner
    exact lineText_append_breaks inner hbreaks

/-- What an opening of a line starts is a comment of one line. -/
theorem opens_line {opening : String} (h : opening ∈ ["//", "///", "//!", "#"]) (t : List Char) :
    ['/', '/'] <+: opening.toList ++ t ∨ ['#'] <+: opening.toList ++ t := by
  rcases exists_mark_of_line h with hopening | ⟨mark, -, hopening⟩
  · exact .inr (hopening ▸ List.prefix_append _ _)
  · left
    rw [hopening, List.append_assoc]
    exact List.prefix_append _ _

end Comment

theorem Marker.parse?_lineText_eq (t : String) :
    parse? (String.ofList (Comment.lineText t.toList)) = parse? t := by
  obtain ⟨breaks, ht, hbreaks⟩ := Comment.exists_breaks t.toList
  have htext : t = String.ofList (Comment.lineText t.toList) ++ String.ofList breaks := by
    rw [← String.ofList_append, ← ht, String.ofList_toList]
  rw [htext, parse?_append_breaks _ (by rwa [String.toList_ofList]), ← htext]

/-- **Notes are recognised in every style of comment.**  Let a text not start with `*`, `/` or `!`.
Put into a block it is found again as it is, and put into a line it is found again without the line
breaks at its end, whatever line breaks are put behind it.  In every one of these comments the same
note is read, if any, as in the text itself. -/
theorem Comment.strip_in_every_style (t : String)
    (ht : ∀ c ∈ t.toList.head?, c ≠ '*' ∧ c ≠ '/' ∧ c ≠ '!') :
    (∀ opening ∈ ["/*", "/**", "/*!"],
      let stripped := strip (opening ++ t ++ "*/").toList
      stripped = t.toList ∧ Marker.parse? (String.ofList stripped) = Marker.parse? t) ∧
    ∀ opening ∈ ["//", "///", "//!", "#"], ∀ breaks : String,
      (∀ c ∈ breaks.toList, c = '\r' ∨ c = '\n') →
      let stripped := strip (opening ++ t ++ breaks).toList
      (∃ tail, t.toList = stripped ++ tail ∧ (∀ c ∈ tail, c = '\r' ∨ c = '\n') ∧
        ∀ c ∈ stripped.getLast?, c ≠ '\r' ∧ c ≠ '\n') ∧
      Marker.parse? (String.ofList stripped) = Marker.parse? t := by
  constructor
  · intro opening hopening stripped
    have hstripped : stripped = t.toList := by
      show strip (opening ++ t ++ "*/").toList = t.toList
      rw [String.toList_append, String.toList_append]
      exact strip_block hopening fun c hc => ⟨(ht c hc).1, (ht c hc).2.2⟩
    rw [hstripped, String.ofList_toList]
    exact ⟨rfl, rfl⟩
  · intro opening hopening breaks hbreaks stripped
    have hstripped : stripped = lineText t.toList := by
      show strip (opening ++ t ++ breaks).toList = lineText t.toList
      rw [String.toList_append, String.toList_append,
        strip_append_breaks (opens_line hopening _) fun c hc => Text.isBreak_iff.mpr (hbreaks c hc)]
      exact strip_line hopening fun c hc => (ht c hc).2
    obtain ⟨tail, htext, htail⟩ := exists_breaks t.toList
    rw [hstripped, Marker.parse?_lineText_eq]
    refine ⟨⟨tail, htext, fun c hc => ?_, fun c hc => ?_⟩, rfl⟩
    · exact Text.isBreak_iff.mp (htail c hc)
    · exact Text.isBreak_eq_false_iff.mp (getLast?_lineText t.toList c hc)

/-- A note whose text ends in the characters that close a block and then in a line break: each of
the styles gives it back. -/
theorem Comment.strip_in_every_style_starred :
    let t := "Architecture Note #4: Stars **/\n"
    let note : Option Fragment := some ⟨⟨[4], by decide, by decide⟩, "Stars **/", ""⟩
    Marker.parse? t = note ∧
    strip ("/**" ++ t ++ "*/").toList = t.toList ∧
    (∀ opening ∈ ["/*", "/**", "/*!"],
      Marker.parse? (String.ofList (strip (opening ++ t ++ "*/").toList)) = note) ∧
    ∀ opening ∈ ["//", "///", "//!", "#"],
      Marker.parse? (String.ofList (strip (opening ++ t ++ "\r\n").toList)) = note := by
  intro t note
  have hnote : Marker.parse? t = note := by decide
  have hstart : ∀ c ∈ t.toList.head?, c ≠ '*' ∧ c ≠ '/' ∧ c ≠ '!' := by
    have hfirst : t.toList.head? = some 'A' := by decide
    rw [hfirst]
    rintro c ⟨⟩
    decide
  have hbreaks : ∀ c ∈ "\r\n".toList, c = '\r' ∨ c = '\n' := fun c => List.mem_pair.mp
  obtain ⟨hblock, hline⟩ := strip_in_every_style t hstart
  refine ⟨hnote, (hblock "/**" (by decide)).1, fun opening hopening => ?_,
    fun opening hopening => ?_⟩
  · rw [(hblock opening hopening).2, hnote]
  · rw [(hline opening hopening "\r\n" hbreaks).2, hnote]

end CodeNotes
