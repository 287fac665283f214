import CodeNotes.Proofs.Source.Delimiters

/-!
# Comments with other line endings

`Text.crlf` ends the lines of a text with a carriage return and a line feed instead of a line feed
alone.  Every scan that makes no difference between the two characters commutes with it: what is
dropped or taken at the start of the text (`Text.dropWhile_crlf`, `Text.takeWhile_crlf`) and at its
end (`Text.dropEndWhile_crlf`), and what is compared with a text without line breaks
(`Text.afterPrefix?_crlf`, `Text.beforeSuffix?_crlf`).  All that is done with a comment is made of
such scans, so taking the delimiters off and reading the note commute with it as well
(`Comment.strip_crlf`, `Marker.parse?_crlf`).
-/

namespace CodeNotes

namespace Text

/-! ### Line feeds written in another way -/

/-- A text in which each line feed is written as `w`. -/
def withBreaks (w cs : List Char) : List Char :=
  cs.flatMap fun c => if c = '\n' then w else [c]

section WithBreaks

variable {w : List Char}

theorem withBreaks_cons_lineFeed (cs : List Char) :
    withBreaks w ('\n' :: cs) = w ++ withBreaks w cs := rfl

theorem withBreaks_cons_of_ne {c : Char} (hc : c ≠ '\n') (cs : List Char) :
    withBreaks w (c :: cs) = c :: withBreaks w cs := by
  rw [withBreaks, List.flatMap_cons, if_neg hc]
  rfl

theorem withBreaks_append (cs cs' : List Char) :
    withBreaks w (cs ++ cs') = withBreaks w cs ++ withBreaks w cs' :=
  List.flatMap_append

theorem withBreaks_of_not_mem {cs : List Char} (h : '\n' ∉ cs) : withBreaks w cs = cs := by
  induction cs with
  | nil => rfl
  | cons c cs ih =>
    rw [List.mem_cons, not_or] at h
    rw [withBreaks_cons_of_ne (Ne.symm h.1), ih h.2]

theorem reverse_withBreaks (cs : List Char) :
    (withBreaks w cs).reverse = withBreaks w.reverse cs.reverse := by
  rw [withBreaks, withBreaks, List.reverse_flatMap]
  congr 1
  funext c
  show (if c = '\n' then w else [c]).reverse = if c = '\n' then w.reverse else [c]
  split <;> rfl

variable (hw : w ≠ [])

include hw

section Scan

variable {p : Char → Bool} (hp : ∀ c ∈ w, p c = p '\n')

include hp

theorem dropWhile_withBreaks (cs : List Char) :
    (withBreaks w cs).dropWhile p = withBreaks w (cs.dropWhile p) := by
  induction cs with
  | nil => rfl
  | cons c cs ih =>
    by_cases hc : c = '\n'
    · subst hc
      rw [withBreaks_cons_lineFeed]
      cases hfeed : p '\n' with
      | true =>
        have hall : ∀ c ∈ w, p c = true := fun c hc => (hp c hc).trans hfeed
        rw [List.dropWhile_append_of_pos hall, ih, List.dropWhile_cons_of_pos hfeed]
      | false =>
        -- The scan stops at the first character that stands for the line feed.
        have hstop : ∀ c ∈ (w ++ withBreaks w cs).head?, p c = false := by
          intro c hc
          rw [List.head?_append_of_ne_nil _ hw] at hc
          exact (hp c (List.mem_of_head? hc)).trans hfeed
        have hstay : ('\n' :: cs).dropWhile p = '\n' :: cs :=
          dropWhile_eq_self fun c hc => by rwa [← Option.some.inj hc]
        rw [dropWhile_eq_self hstop, hstay, withBreaks_cons_lineFeed]
    · rw [withBreaks_cons_of_ne hc, List.dropWhile_cons, List.dropWhile_cons]
      split
      · exact ih
      · rw [withBreaks_cons_of_ne hc]

/-- What a scan takes is what it does not leave. -/
theorem takeWhile_withBreaks (cs : List Char) :
    (withBreaks w cs).takeWhile p = withBreaks w (cs.takeWhile p) := by
  have hsplit : (withBreaks w cs).takeWhile p ++ withBreaks w (cs.dropWhile p)
      = withBreaks w (cs.takeWhile p) ++ withBreaks w (cs.dropWhile p) := by
    rw [← dropWhile_withBreaks hw hp, List.takeWhile_append_dropWhile,
      dropWhile_withBreaks hw hp, ← withBreaks_append, List.takeWhile_append_dropWhile]
  exact List.append_cancel_right hsplit

end Scan

omit hw in
theorem afterPrefix?_cons_cons (a c : Char) (pre cs : List Char) :
    afterPrefix? (a :: pre) (c :: cs) = if a = c then afterPrefix? pre cs else none := by
  by_cases h : a = c <;> simp [afterPrefix?, h]

theorem afterPrefix?_withBreaks {pre : List Char} (hfeed : '\n' ∉ pre) (hpre : ∀ c ∈ w, c ∉ pre)
    (cs : List Char) :
    afterPrefix? pre (withBreaks w cs) = (afterPrefix? pre cs).map (withBreaks w) := by
  induction pre generalizing cs with
  | nil => rfl
  | cons a pre ih =>
    cases cs with
    | nil => rfl
    | cons c cs =>
      by_cases hc : c = '\n'
      · subst hc
        obtain ⟨b, v, rfl⟩ := List.exists_cons_of_ne_nil hw
        have hab : a ≠ b := by
          rintro rfl
          exact hpre a List.mem_cons_self List.mem_cons_self
        have ha : a ≠ '\n' := by
          rintro rfl
          exact hfeed List.mem_cons_self
        rw [withBreaks_cons_lineFeed, List.cons_append, afterPrefix?_cons_cons, if_neg hab,
          afterPrefix?_cons_cons, if_neg ha, Option.map_none]
      · rw [withBreaks_cons_of_ne hc, afterPrefix?_cons_cons, afterPrefix?_cons_cons]
        split
        · exact ih (mt (List.mem_cons_of_mem a) hfeed)
            (fun c hc => mt (List.mem_cons_of_mem a) (hpre c hc)) cs
        · rfl

end WithBreaks

/-! ### Carriage returns -/

/-- A text whose lines end with a carriage return and a line feed instead of a line feed alone. -/
def crlf (cs : List Char) : List Char :=
  withBreaks ['\r', '\n'] cs

theorem reverse_crlf (cs : List Char) :
    (crlf cs).reverse = withBreaks ['\n', '\r'] cs.reverse :=
  reverse_withBreaks cs

theorem reverse_withBreaks_reverse (cs : List Char) :
    (withBreaks ['\n', '\r'] cs).reverse = crlf cs.reverse :=
  reverse_withBreaks cs

section Crlf

variable (cs : List Char)

section Scan

variable {p : Char → Bool} (hp : p '\r' = p '\n')

include hp

theorem dropWhile_crlf : (crlf cs).dropWhile p = crlf (cs.dropWhile p) :=
  dropWhile_withBreaks (by decide) (by simp [hp]) cs

theorem takeWhile_crlf : (crlf cs).takeWhile p = crlf (cs.takeWhile p) :=
  takeWhile_withBreaks (by decide) (by simp [hp]) cs

theorem dropEndWhile_crlf : dropEndWhile p (crlf cs) = crlf (dropEndWhile p cs) := by
  rw [dropEndWhile, reverse_crlf, dropWhile_withBreaks (by decide) (by simp [hp]),
    reverse_withBreaks_reverse, dropEndWhile]

theorem any_head?_crlf : (crlf cs).head?.any p = cs.head?.any p := by
  cases cs with
  | nil => rfl
  | cons c cs =>
    by_cases hc : c = '\n'
    · subst hc
      exact hp
    · rw [crlf, withBreaks_cons_of_ne hc]
      rfl

end Scan

theorem trim_crlf : trim (crlf cs) = crlf (trim cs) := by
  rw [trim, trimStart, dropWhile_crlf cs rfl, trimEnd, dropEndWhile_crlf _ rfl]
  rfl

section Compare

variable {pre : List Char} (hpre : '\r' ∉ pre ∧ '\n' ∉ pre)

include hpre

theorem afterPrefix?_crlf : afterPrefix? pre (crlf cs) = (afterPrefix? pre cs).map crlf :=
  afterPrefix?_withBreaks (by decide) hpre.2 (by simp [hpre]) cs

theorem beforeSuffix?_crlf : beforeSuffix? pre (crlf cs) = (beforeSuffix? pre cs).map crlf := by
  have hafter : afterPrefix? pre.reverse (withBreaks ['\n', '\r'] cs.reverse)
      = (afterPrefix? pre.reverse cs.reverse).map (withBreaks ['\n', '\r']) :=
    afterPrefix?_withBreaks (by decide) (by simp [hpre]) (by simp [hpre]) _
  rw [beforeSuffix?, reverse_crlf, hafter, beforeSuffix?, Option.map_map, Option.map_map]
  congr 1
  funext rest
  exact reverse_withBreaks_reverse rest

end Compare

end Crlf

end Text

/-! ### Markers -/

namespace Marker

/-- A scan that stops at line breaks takes the same. -/
theorem takeWhile_crlf_of_stops (cs : List Char) {p : Char → Bool} (hreturn : p '\r' = false)
    (hfeed : p '\n' = false) : (Text.crlf cs).takeWhile p = cs.takeWhile p := by
  have hnone : '\n' ∉ cs.takeWhile p := by
    intro hmem
    rw [List.mem_takeWhile_imp hmem] at hfeed
    nomatch hfeed
  rw [Text.takeWhile_crlf cs (hreturn.trans hfeed.symm), Text.crlf, Text.withBreaks_of_not_mem hnone]

/-- **The parts of a marker** are found as before, and what follows the line has the other line
endings. -/
theorem parts?_crlf (cs : List Char) :
    parts? (Text.crlf cs) = (parts? cs).map fun p => { p with body := Text.crlf p.body } := by
  have hopen : Text.afterPrefix? opening (Text.trimStart (Text.crlf cs))
      = (Text.afterPrefix? opening (Text.trimStart cs)).map Text.crlf := by
    rw [Text.trimStart, Text.dropWhile_crlf cs rfl]
    exact Text.afterPrefix?_crlf _ (by decide)
  rw [parts?, parts?, hopen]
  cases Text.afterPrefix? opening (Text.trimStart cs) with
  | none => rfl
  | some afterHash =>
    have hcolon : Text.afterPrefix? [':'] ((Text.crlf afterHash).dropWhile isIdChar)
        = (Text.afterPrefix? [':'] (afterHash.dropWhile isIdChar)).map Text.crlf := by
      rw [Text.dropWhile_crlf afterHash rfl]
      exact Text.afterPrefix?_crlf _ (by decide)
    simp only [Option.map_some, Option.bind_eq_bind, Option.bind_some, hcolon,
      takeWhile_crlf_of_stops afterHash (p := isIdChar) rfl rfl]
    split
    · rfl
    · cases Text.afterPrefix? [':'] (afterHash.dropWhile isIdChar) with
      | none => rfl
      | some afterColon =>
        have htitle : (Text.crlf afterColon).takeWhile (!Text.isBreak ·)
            = afterColon.takeWhile (!Text.isBreak ·) :=
          takeWhile_crlf_of_stops afterColon rfl rfl
        have hbody : (Text.crlf afterColon).dropWhile (!Text.isBreak ·)
            = Text.crlf (afterColon.dropWhile (!Text.isBreak ·)) :=
          Text.dropWhile_crlf afterColon rfl
        simp only [Option.map_some, Option.bind_some, htitle, hbody,
          Text.any_head?_crlf afterColon (p := Text.isBlank) rfl]
        split <;> rfl

/-- **A note is read as before**, with the other line endings in its body. -/
theorem parse?_crlf (cs : List Char) :
    parse? (String.ofList (Text.crlf cs)) = (parse? (String.ofList cs)).map fun f =>
      { f with body := String.ofList (Text.crlf f.body.toList) } := by
  rw [parse?, parse?, read, read, String.toList_ofList, String.toList_ofList, parts?_crlf]
  cases parts? cs with
  | none => rfl
  | some p =>
    simp only [Option.map_some]
    cases NoteId.parse (String.ofList p.id) with
    | error e => rfl
    | ok id =>
      simp only [Except.toOption, Option.map_some, Text.trim_crlf, String.toList_ofList]

/-- A note holds no characters but those of the text it is read from. -/
theorem mem_of_parse? {t : String} {f : Fragment} (h : parse? t = some f) {c : Char}
    (hc : c ∈ f.title.toList ∨ c ∈ f.body.toList) : c ∈ t.toList := by
  obtain ⟨m, hm, -⟩ := exists_layout_of_parse? (Option.isSome_iff_exists.mpr ⟨f, h⟩)
  obtain ⟨-, htitle, hbody⟩ := eq_of_parse? h hm
  have hline : c ∈ m.gap ++ m.title ∨ c ∈ m.body := by
    rw [htitle, hbody] at hc
    exact hc.imp Text.mem_of_mem_trim Text.mem_of_mem_trim
  have htext : c ∈ m.gap ++ m.title ++ m.body := List.mem_append.mpr hline
  rw [← hm, Layout.text]
  exact List.mem_append_right _ (List.mem_append_right _
    (List.mem_append_right _ (List.mem_cons_of_mem _ htext)))

end Marker

/-! ### Comments -/

namespace Comment

theorem dropMark_crlf {a b : Char} (cs : List Char) (ha : Text.isBreak a = false)
    (hb : Text.isBreak b = false) :
    dropMark a b (Text.crlf cs) = Text.crlf (dropMark a b cs) := by
  cases cs with
  | nil => rfl
  | cons c cs =>
    by_cases hc : c = '\n'
    · -- A line break is no mark, in whichever way it is written.
      subst hc
      obtain ⟨hreturnA, hfeedA⟩ := Text.isBreak_eq_false_iff.mp ha
      obtain ⟨hreturnB, hfeedB⟩ := Text.isBreak_eq_false_iff.mp hb
      have hfeed : dropMark a b ('\n' :: cs) = '\n' :: cs :=
        dropMark_eq_self fun c hc => by
          obtain rfl := Option.some.inj hc
          exact ⟨hfeedA.symm, hfeedB.symm⟩
      rw [hfeed]
      refine dropMark_eq_self fun c hc => ?_
      obtain rfl := Option.some.inj hc
      exact ⟨hreturnA.symm, hreturnB.symm⟩
    · rw [Text.crlf, Text.withBreaks_cons_of_ne hc, dropMark, dropMark]
      split
      · rfl
      · rw [Text.crlf, Text.withBreaks_cons_of_ne hc]

theorem blockText_crlf (inner : List Char) :
    blockText (Text.crlf inner) = Text.crlf (blockText inner) := by
  have hclose : (Text.beforeSuffix? ['*', '/'] (Text.crlf inner)).getD (Text.crlf inner)
      = Text.crlf ((Text.beforeSuffix? ['*', '/'] inner).getD inner) := by
    rw [Text.beforeSuffix?_crlf inner (by decide)]
    cases Text.beforeSuffix? ['*', '/'] inner <;> rfl
  rw [blockText, hclose, dropMark_crlf _ rfl rfl]
  rfl

theorem lineText_crlf (inner : List Char) :
    lineText (Text.crlf inner) = Text.crlf (lineText inner) :=
  Text.dropEndWhile_crlf inner rfl

/-- What is done to a comment, told by what it starts with. -/
theorem strip_eq (cs : List Char) :
    strip cs =
      match Text.afterPrefix? ['/', '*'] cs with
      | some inner => blockText inner
      | none =>
        match Text.afterPrefix? ['/', '/'] cs with
        | some inner => lineText (dropMark '/' '!' inner)
        | none =>
          match Text.afterPrefix? ['#'] cs with
          | some inner => lineText inner
          | none => lineText cs := by
  fun_cases strip cs with
  | case1 inner => rfl
  | case2 inner => rfl
  | case3 inner => rfl
  | case4 cs hblock hline hhash =>
    have hnone : ∀ {pre : List Char}, (∀ inner, cs ≠ pre ++ inner) →
        Text.afterPrefix? pre cs = none := by
      intro pre hpre
      refine Option.eq_none_iff_forall_ne_some.mpr fun inner hinner => ?_
      exact hpre inner (Marker.eq_append_of_afterPrefix? hinner)
    rw [hnone hblock, hnone hline, hnone hhash]

/-- **Taking the delimiters off** leaves the text with the other line endings. -/
theorem strip_crlf (cs : List Char) : strip (Text.crlf cs) = Text.crlf (strip cs) := by
  rw [strip_eq, strip_eq, Text.afterPrefix?_crlf cs (by decide),
    Text.afterPrefix?_crlf cs (by decide), Text.afterPrefix?_crlf cs (by decide)]
  cases Text.afterPrefix? ['/', '*'] cs with
  | some inner => exact blockText_crlf inner
  | none =>
    cases Text.afterPrefix? ['/', '/'] cs with
    | some inner =>
      show lineText (dropMark '/' '!' (Text.crlf inner))
        = Text.crlf (lineText (dropMark '/' '!' inner))
      rw [dropMark_crlf inner rfl rfl, lineText_crlf]
    | none =>
      cases Text.afterPrefix? ['#'] cs with
      | some inner => exact lineText_crlf inner
      | none => exact lineText_crlf cs

/-! ### Lines that keep a carriage return -/

theorem mem_of_mem_dropMark {a b c : Char} {cs : List Char} (h : c ∈ dropMark a b cs) : c ∈ cs := by
  cases cs with
  | nil => exact h
  | cons d cs =>
    rw [dropMark] at h
    split at h
    · exact List.mem_cons_of_mem d h
    · exact h

theorem mem_of_mem_lineText {c : Char} {cs : List Char} (h : c ∈ lineText cs) : c ∈ cs :=
  (List.rdropWhile_prefix Text.isBreak cs).subset h

theorem mem_of_mem_strip {raw : List Char} (hraw : ['/', '/'] <+: raw ∨ ['#'] <+: raw) {c : Char}
    (h : c ∈ strip raw) : c ∈ raw := by
  rcases hraw with ⟨inner, rfl⟩ | ⟨inner, rfl⟩
  · have hinner : c ∈ inner := mem_of_mem_dropMark (mem_of_mem_lineText h)
    exact List.mem_append_right _ hinner
  · have hinner : c ∈ inner := mem_of_mem_lineText h
    exact List.mem_append_right _ hinner

/-- A carriage return behind a line does not count. -/
theorem strip_append_return {raw : List Char} (hraw : ['/', '/'] <+: raw ∨ ['#'] <+: raw) :
    strip (raw ++ ['\r']) = strip raw :=
  strip_append_breaks hraw (List.forall_mem_singleton.mpr rfl)

end Comment

/-- **Line endings do not matter.**  Ending the lines of a comment with a carriage return and a line
feed, instead of a line feed alone, does the same to what is left without the delimiters.  It makes
no comment a note and no note a mere comment; a note keeps its id and its title, and the lines of
its body end as those of the comment do.

A comment of one line may keep the carriage return that ends its line.  It is taken off with the
delimiters, so a note has no carriage return that the comment has not elsewhere. -/
theorem Comment.note_of_crlf (x : List Char) :
    strip (Text.crlf x) = Text.crlf (strip x) ∧
    (Marker.parse? (String.ofList (strip (Text.crlf x))) = none ↔
      Marker.parse? (String.ofList (strip x)) = none) ∧
    (∀ f f', Marker.parse? (String.ofList (strip x)) = some f →
      Marker.parse? (String.ofList (strip (Text.crlf x))) = some f' →
      f'.id = f.id ∧ f'.title = f.title ∧ f'.body.toList = Text.crlf f.body.toList) ∧
    (['/', '/'] <+: x ∨ ['#'] <+: x →
      strip (x ++ ['\r']) = strip x ∧
      (∀ (source : List Char) (node : Tree), node.span.text source = x ++ ['\r'] →
        (ofNode source node).text = String.ofList (strip x)) ∧
      ('\r' ∉ x → ∀ f, Marker.parse? (String.ofList (strip (x ++ ['\r']))) = some f →
        '\r' ∉ f.title.toList ∧ '\r' ∉ f.body.toList)) := by
  have hread := Marker.parse?_crlf (strip x)
  rw [← strip_crlf] at hread
  refine ⟨strip_crlf x, ?_, fun f f' hf hf' => ?_, fun hx => ⟨strip_append_return hx, ?_, ?_⟩⟩
  · rw [hread, Option.map_eq_none_iff]
  · rw [hread, hf, Option.map_some, Option.some.injEq] at hf'
    subst hf'
    exact ⟨rfl, rfl, String.toList_ofList⟩
  · intro source node hnode
    show String.ofList (strip (node.span.text source)) = String.ofList (strip x)
    rw [hnode, strip_append_return hx]
  · intro hreturn f hf
    rw [strip_append_return hx] at hf
    have hnone : ∀ c, c ∈ f.title.toList ∨ c ∈ f.body.toList → c ∈ x := by
      intro c hc
      have htext := Marker.mem_of_parse? hf hc
      rw [String.toList_ofList] at htext
      exact mem_of_mem_strip hx htext
    exact ⟨fun hc => hreturn (hnone _ (.inl hc)), fun hc => hreturn (hnone _ (.inr hc))⟩

/-- A block with an empty line and a body of two lines, and a comment of one line that keeps a
carriage return. -/
theorem Comment.note_of_crlf_block :
    let block := "/**\n Architecture Note #1.2: A\n\n B\n C\n*/".toList
    let line := "# Architecture Note #3: D".toList
    let first : NoteId := ⟨[1, 2], by decide, by decide⟩
    let second : NoteId := ⟨[3], by decide, by decide⟩
    Marker.parse? (String.ofList (strip block)) = some ⟨first, "A", "B\n C"⟩ ∧
    Marker.parse? (String.ofList (strip (Text.crlf block))) = some ⟨first, "A", "B\r\n C"⟩ ∧
    ['#'] <+: line ∧ '\r' ∉ line ∧
    Marker.parse? (String.ofList (strip (line ++ ['\r']))) = some ⟨second, "D", ""⟩ := by
  intro block line first second
  have hblock : Marker.parse? (String.ofList (strip block)) = some ⟨first, "A", "B\n C"⟩ := by
    decide
  have hline : Marker.parse? (String.ofList (strip line)) = some ⟨second, "D", ""⟩ := by decide
  have hhash : ['#'] <+: line := by decide
  obtain ⟨-, hnone, hnote, -⟩ := note_of_crlf block
  obtain ⟨-, -, -, hreturn⟩ := note_of_crlf line
  refine ⟨hblock, ?_, hhash, by decide, ?_⟩
  · cases hread : Marker.parse? (String.ofList (strip (Text.crlf block))) with
    | none => rw [hnone.mp hread] at hblock; nomatch hblock
    | some f =>
      obtain ⟨hid, htitle, hbody⟩ := hnote _ f hblock hread
      have hbody' : f.body = "B\r\n C" := String.toList_inj.mp (hbody.trans (by decide))
      obtain ⟨id, title, body⟩ := f
      simp only at hid htitle hbody'
      rw [hid, htitle, hbody']
  · rw [(hreturn (.inr hhash)).1, hline]

end CodeNotes
