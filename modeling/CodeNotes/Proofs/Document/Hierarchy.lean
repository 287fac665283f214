import CodeNotes.Proofs.Document.Headings
import CodeNotes.Source.Extract

/-!
# Sections of the document

In a document made from sorted notes the sections follow the hierarchy of ids: the heading of a note
comes before the headings of all notes below it, has fewer `#` than they have, and so have the
headings of notes between, from the last one of its id on (`sections_follow_ids`).

A section ends at the next line that starts with as few `#` as its heading.  Such a line need not be
the heading of a note: it can be written in a body (`headings_of_injected`).  Where everything that
is written into the document keeps to its lines (`KeepsLines`), the lines that start with `#` are
the headings and nothing else, so the notes below a note are in its section.
-/

namespace CodeNotes.Document

/-! ### The order of the headings -/

/-- In outline order, what follows a note has no smaller id. -/
theorem isLE_of_lt {notes sorted : List Note} (hsorted : Note.sort notes = sorted) {i j : Nat}
    (hi : i < sorted.length) (hj : j < sorted.length) (hij : i < j) :
    (compare sorted[i].id sorted[j].id).isLE = true := by
  have hpairwise := Note.pairwise_sort notes
  rw [hsorted] at hpairwise
  exact List.pairwise_iff_getElem.mp hpairwise i j hi hj hij

/-- In outline order, the notes of an id come before the notes below it. -/
theorem index_lt_of_prefix {notes sorted : List Note} (hsorted : Note.sort notes = sorted)
    {i j : Nat} (hi : i < sorted.length) (hj : j < sorted.length)
    (hbelow : sorted[i].id.components <+: sorted[j].id.components)
    (hne : sorted[j].id ≠ sorted[i].id) : i < j := by
  have hlt := NoteId.compare_of_prefix hbelow hne
  by_contra hij
  -- Otherwise the order would put the id that is below first.
  rcases Nat.eq_or_lt_of_le (Nat.le_of_not_lt hij) with rfl | hji
  · exact hne rfl
  · have hle := isLE_of_lt hsorted hj hi hji
    rw [Std.OrientedOrd.eq_swap, hlt] at hle
    exact absurd hle Bool.false_ne_true

/-- What stands between the last note of an id and a note below it is deeper than the first. -/
theorem depth_lt_of_between {notes sorted : List Note} (hsorted : Note.sort notes = sorted)
    {i j k : Nat} (hi : i < sorted.length) (hj : j < sorted.length) (hk : k < sorted.length)
    (hbelow : sorted[i].id.components <+: sorted[j].id.components) (hik : i < k) (hkj : k ≤ j)
    (hother : sorted[k].id ≠ sorted[i].id) : sorted[i].id.depth < sorted[k].id.depth := by
  have hcovered : sorted[i].id.components <+: sorted[k].id.components := by
    rcases Nat.eq_or_lt_of_le hkj with rfl | hkj
    · exact hbelow
    · exact NoteId.prefix_of_between List.prefix_rfl hbelow (isLE_of_lt hsorted hi hk hik)
        (isLE_of_lt hsorted hk hj hkj)
  exact NoteId.depth_lt_of_prefix hcovered hother

/-! ### Sections -/

/-- Nothing but the headings of a document can start one of its lines with `#`. -/
structure KeepsLines (options : RenderOptions) (notes : List Note) : Prop where
  eol : options.eol = "\n" ∨ options.eol = "\r\n"
  base : '\n' ∉ options.base.toList
  notes : ∀ note ∈ notes, Outlined note

theorem KeepsLines.headingLines_render {options : RenderOptions} {notes : List Note}
    (hlines : KeepsLines options notes) (h : options.validate = .ok ()) (hne : notes ≠ [])
    (dir : Path) :
    headingLines (render options dir notes).toList
      = (options.titleLevel ++ " " ++ title).toList ::
        notes.map fun note => (heading options note).toList := by
  obtain ⟨e, he, hsplit⟩ := exists_separator hlines.eol
  exact Document.headingLines_render he hsplit h hlines.base hne hlines.notes dir

/-- **Sections follow ids.**  In the sorted list the notes of an id `p` and the notes below `p` are
one segment, with the notes of `p` first.  In the document made from it, where each heading starts
at its offset, the heading of a note below `p` comes after every heading of `p` and has more `#`,
and so has every heading of a note that stands between the last one of `p` and it.

If everything keeps to its lines, the lines that start with `#` are the title and these headings,
and each of them from the last heading of `p` on, up to that of a note below `p`, has more `#` than
the heading of `p`: the note is in the section of `p`. -/
theorem sections_follow_ids {notes sorted : List Note} (hsorted : Note.sort notes = sorted)
    {options : RenderOptions} (hoptions : options.validate = .ok ()) (dir : Path) (p : NoteId) :
    (∃ before own below after, sorted = before ++ (own ++ below) ++ after ∧
      (∀ n ∈ own, n.id = p) ∧
      (∀ n ∈ below, p.components <+: n.id.components ∧ n.id ≠ p) ∧
      (∀ n ∈ before, ¬ p.components <+: n.id.components) ∧
      ∀ n ∈ after, ¬ p.components <+: n.id.components) ∧
    (∀ k, ∀ hk : k < sorted.length,
      (paragraph options (heading options sorted[k])).toList
        <+: (render options dir sorted).toList.drop (headingOffset options dir sorted k)) ∧
    (∀ i j, ∀ hi : i < sorted.length, ∀ hj : j < sorted.length,
      sorted[i].id = p → p.components <+: sorted[j].id.components → sorted[j].id ≠ p →
      headingOffset options dir sorted i < headingOffset options dir sorted j ∧
      hashesAt (render options dir sorted) (headingOffset options dir sorted i)
        < hashesAt (render options dir sorted) (headingOffset options dir sorted j) ∧
      ∀ k, k < sorted.length →
        (∀ m, ∀ hm : m < sorted.length, sorted[m].id = p →
          headingOffset options dir sorted m < headingOffset options dir sorted k) →
        headingOffset options dir sorted k < headingOffset options dir sorted j →
        hashesAt (render options dir sorted) (headingOffset options dir sorted i)
          < hashesAt (render options dir sorted) (headingOffset options dir sorted k)) ∧
    (KeepsLines options sorted → sorted ≠ [] →
      headingLines (render options dir sorted).toList
        = (options.titleLevel ++ " " ++ title).toList ::
          (sorted.map fun note => (heading options note).toList) ∧
      ∀ i j, ∀ hi : i < sorted.length, ∀ hj : j < sorted.length,
        sorted[i].id = p → (∀ m, ∀ hm : m < sorted.length, sorted[m].id = p → m ≤ i) →
        p.components <+: sorted[j].id.components → sorted[j].id ≠ p →
        ∀ k line, i + 1 < k → k ≤ j + 1 →
          (headingLines (render options dir sorted).toList)[k]? = some line →
          (readHeading (heading options sorted[i]).toList).1 < (readHeading line).1) := by
  refine ⟨hsorted ▸ Note.exists_segments notes p, fun k hk => ?_, ?_, fun hlines hne => ?_⟩
  · obtain ⟨rest, hrest⟩ := drop_headingOffset options dir hk
    rw [hrest]
    exact List.prefix_append _ _
  · intro i j hi hj hip hbelow hne
    subst hip
    have hij := index_lt_of_prefix hsorted hi hj hbelow hne
    refine ⟨headingOffset_lt_headingOffset options dir hij hi, ?_, ?_⟩
    · rw [hashesAt_headingOffset dir hoptions hi, hashesAt_headingOffset dir hoptions hj]
      exact Nat.add_lt_add_left (NoteId.depth_lt_of_prefix hbelow hne) _
    · intro k hk hafter hbefore
      have hik : i < k := lt_of_headingOffset_lt options dir hk (hafter i hi rfl)
      have hkj : k < j := lt_of_headingOffset_lt options dir hj hbefore
      have hother : sorted[k].id ≠ sorted[i].id :=
        fun heq => Nat.lt_irrefl _ (hafter k hk heq)
      rw [hashesAt_headingOffset dir hoptions hi, hashesAt_headingOffset dir hoptions hk]
      exact Nat.add_lt_add_left
        (depth_lt_of_between hsorted hi hj hk hbelow hik (Nat.le_of_lt hkj) hother) _
  · have hheadings := hlines.headingLines_render hoptions hne dir
    refine ⟨hheadings, ?_⟩
    intro i j hi hj hip hlast hbelow hne k line hik hkj hline
    subst hip
    -- The title comes first, so the line is the heading of the note before `k`.
    obtain ⟨k, rfl⟩ : ∃ m, k = m + 1 := ⟨k - 1, by omega⟩
    have hk : k < sorted.length := by omega
    rw [hheadings, List.getElem?_cons_succ, List.getElem?_map, List.getElem?_eq_getElem hk,
      Option.map_some, Option.some.injEq] at hline
    have hother : sorted[k].id ≠ sorted[i].id := by
      intro heq
      have hle := hlast k hk heq
      omega
    rw [← hline, readHeading_heading hoptions, readHeading_heading hoptions]
    exact Nat.add_lt_add_left
      (depth_lt_of_between hsorted hi hj hk hbelow (by omega) (by omega) hother) _

/-- Notes in outline order whose ids have gaps and zeros: nothing stands at `3.0`. -/
def sparseOutline : List Note :=
  [⟨⟨[3], by decide, by decide⟩, "Top", "", ⟨"/repo/a.js"⟩, ⟨1, 1⟩⟩,
    ⟨⟨[3, 0, 0, 2], by decide, by decide⟩, "Deep", "", ⟨"/repo/b.js"⟩, ⟨7, 7⟩⟩,
    ⟨⟨[3, 0, 1], by decide, by decide⟩, "Flat", "", ⟨"/repo/a.js"⟩, ⟨2, 2⟩⟩]

theorem keepsLines_sparseOutline : KeepsLines {} sparseOutline where
  eol := .inl rfl
  base := by decide
  notes note hnote := by
    rcases List.mem_cons.mp hnote with rfl | hnote
    · exact ⟨by decide, by decide, by decide⟩
    rcases List.mem_cons.mp hnote with rfl | hnote
    · exact ⟨by decide, by decide, by decide⟩
    obtain rfl := List.mem_singleton.mp hnote
    exact ⟨by decide, by decide, by decide⟩

/-- The note between the first and the last one is in the section of the first. -/
theorem sections_follow_sparse_ids :
    Note.sort sparseOutline.reverse = sparseOutline ∧
      hashesAt (render {} ⟨"/repo"⟩ sparseOutline) (headingOffset {} ⟨"/repo"⟩ sparseOutline 0)
        < hashesAt (render {} ⟨"/repo"⟩ sparseOutline)
          (headingOffset {} ⟨"/repo"⟩ sparseOutline 1) ∧
      headingLines (render {} ⟨"/repo"⟩ sparseOutline).toList
        = ["# Architecture Notes", "## Top", "##### Deep", "#### Flat"].map String.toList ∧
      (readHeading "## Top".toList).1 < (readHeading "##### Deep".toList).1 := by
  have hsort : Note.sort sparseOutline.reverse = sparseOutline := by cbv
  have hvalid : ({} : RenderOptions).validate = .ok () := rfl
  have hsections := sections_follow_ids hsort hvalid ⟨"/repo"⟩ ⟨[3], by decide, by decide⟩
  obtain ⟨-, -, hbetween⟩ := hsections.2.2.1 0 2 (by decide) (by decide) (by decide) (by decide)
    (by decide)
  obtain ⟨hlines, hsection⟩ := hsections.2.2.2 keepsLines_sparseOutline (by decide)
  have htop : ∀ m, ∀ hm : m < sparseOutline.length,
      sparseOutline[m].id = ⟨[3], by decide, by decide⟩ → m = 0 := by decide
  refine ⟨hsort, hbetween 1 (by decide) (fun m hm hid => ?_) ?_, hlines, ?_⟩
  · rw [htop m hm hid]
    exact headingOffset_lt_headingOffset {} ⟨"/repo"⟩ (by decide) (by decide)
  · exact headingOffset_lt_headingOffset {} ⟨"/repo"⟩ (by decide) (by decide)
  · refine hsection 0 2 (by decide) (by decide) rfl (fun m hm hid => ?_) (by decide) (by decide) 2 _
      (by decide) (by decide) ?_
    · exact Nat.le_of_eq (htop m hm hid)
    · rw [hlines]
      rfl

/-- A note and one below it, the first with a title, a body and a path. -/
def family (title body : String) (path : Path) : List Note :=
  [⟨⟨[6], by decide, by decide⟩, title, body, path, ⟨1, 5⟩⟩,
    ⟨⟨[6, 1], by decide, by decide⟩, "Child", "", ⟨"/repo/a.js"⟩, ⟨6, 6⟩⟩]

/-- A body can end the section of its note: of a line in it that starts with one `#`, the heading of
the note below is no longer part of that section.  So can a title, a path, a base and a separator
with a line feed in them. -/
theorem headings_of_injected :
    (Source.extract ⟨"/repo/a.js"⟩ ("/* Architecture Note #6: Parent\nintro\n# Injected\nmore\n*/\n"
        ++ "// Architecture Note #6.1: Child\n")
      = .ok (family "Parent" "intro\n# Injected\nmore" ⟨"/repo/a.js"⟩) ∧
    Note.sort (family "Parent" "intro\n# Injected\nmore" ⟨"/repo/a.js"⟩)
      = family "Parent" "intro\n# Injected\nmore" ⟨"/repo/a.js"⟩ ∧
    headingLines (render {} ⟨"/repo"⟩
        (family "Parent" "intro\n# Injected\nmore" ⟨"/repo/a.js"⟩)).toList
      = ["# Architecture Notes", "## Parent", "# Injected", "### Child"].map String.toList ∧
    ¬ (readHeading "## Parent".toList).1 < (readHeading "# Injected".toList).1) ∧
    headingLines (render {} ⟨"/repo"⟩ (family "Parent\n# Injected" "" ⟨"/repo/a.js"⟩)).toList
      = ["# Architecture Notes", "## Parent", "# Injected", "### Child"].map String.toList ∧
    headingLines (render {} ⟨"/repo"⟩ (family "Parent" "" ⟨"/repo/a\n# Injected"⟩)).toList
      = ["# Architecture Notes", "## Parent", "# Injected#L1-L5)", "### Child"].map
        String.toList ∧
    headingLines (render { base := "b\n# Injected" } ⟨"/repo"⟩
        (family "Parent" "" ⟨"/repo/a.js"⟩)).toList
      = ["# Architecture Notes", "## Parent", "# Injected/a.js#L1-L5)", "### Child",
        "# Injected/a.js#L6-L6)"].map String.toList ∧
    headingLines (render { eol := "#\n" } ⟨"/repo"⟩ (family "Parent" "" ⟨"/repo/a.js"⟩)).toList
      = ["# Architecture Notes#", "#", "## Parent#", "#", "#", "### Child#", "#", "#"].map
        String.toList := by
  refine ⟨⟨?_, ?_, ?_, ?_⟩, ?_, ?_, ?_, ?_⟩
  · decide +kernel
  · cbv
  all_goals decide +kernel

end CodeNotes.Document
