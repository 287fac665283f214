import CodeNotes.Proofs.Note.Id
import CodeNotes.Proofs.Text.Scan
import CodeNotes.Source.Journal

/-!
# The grammar of markers

A `Layout` says how a text is made up as a marker, without saying how it is read.  The texts that
split into the parts of a marker are exactly those with a layout (`parts?_text`,
`exists_layout_of_parts?`).  A text may have several layouts, because the border between the blanks
after the colon and the title can be drawn at any blank; but they all agree on the groups, on the
blanks and the title together, and on the body (`Layout.eq_of_text_eq`).  So a layout tells the note
that is read, and that none is read because a number is too large (`parse?_iff_layout`).
-/

namespace CodeNotes.Marker

/-! ### Layouts -/

/-- How a text is made up as a marker: white space, the opening, groups of digits with dots between
them, a colon, blanks, the rest of the line, and what follows the line. -/
structure Layout where
  lead : List Char
  groups : List (List Char)
  gap : List Char
  title : List Char
  body : List Char
  lead_space : ∀ c ∈ lead, Text.isSpace c = true
  groups_ne_nil : groups ≠ []
  groups_length : groups.length ≤ 8
  groups_digits : ∀ g ∈ groups, NoteId.IsGroup g
  gap_ne_nil : gap ≠ []
  gap_blank : ∀ c ∈ gap, Text.isBlank c = true
  title_line : ∀ c ∈ title, Text.isBreak c = false
  /-- What follows the line is nothing or starts with the line's end. -/
  body_break : ∀ c ∈ body.head?, Text.isBreak c = true

namespace Layout

/-- The text that is made up so. -/
def text (m : Layout) : List Char :=
  m.lead ++ ("Architecture Note #".toList ++
    (NoteId.joined m.groups ++ ':' :: (m.gap ++ m.title ++ m.body)))

/-- The decimal values of the groups. -/
def values (m : Layout) : List Nat :=
  m.groups.map fun g => Nat.ofDigitChars 10 g 0

/-- All values are numbers of 64 bits. -/
def Fits (m : Layout) : Prop :=
  ∀ n ∈ m.values, n < UInt64.size

theorem values_eq (m : Layout) : m.values = m.groups.map NoteId.digitsValue := rfl

theorem fits_iff (m : Layout) : m.Fits ↔ ∀ g ∈ m.groups, NoteId.digitsValue g < UInt64.size := by
  rw [Fits, values_eq, List.forall_mem_map]

theorem exists_large_iff (m : Layout) :
    (∃ n ∈ m.values, UInt64.size ≤ n) ↔ ∃ g ∈ m.groups, UInt64.size ≤ NoteId.digitsValue g := by
  rw [values_eq]
  simp only [List.mem_map, exists_exists_and_eq_and]

theorem fits_or_large (m : Layout) : m.Fits ∨ ∃ n ∈ m.values, UInt64.size ≤ n := by
  by_cases hfits : m.Fits
  · exact .inl hfits
  · right
    rw [Fits] at hfits
    push Not at hfits
    exact hfits

end Layout

/-! ### The text of an id -/

theorem isDotted_joined {gs : List (List Char)} (hne : gs ≠ []) (hlength : gs.length ≤ 8)
    (hgs : ∀ g ∈ gs, NoteId.IsGroup g) : isDotted (NoteId.joined gs) = true := by
  rw [isDotted, NoteId.splitOn_joined hne hgs, Bool.and_eq_true, List.all_eq_true]
  refine ⟨fun g hg => ?_, decide_eq_true hlength⟩
  rw [Bool.and_eq_true, List.all_eq_true, Bool.not_eq_true', List.isEmpty_eq_false_iff]
  exact hgs g hg

/-- A dotted text is made of groups. -/
theorem exists_groups_of_isDotted {cs : List Char} (h : isDotted cs = true) :
    ∃ gs, gs ≠ [] ∧ gs.length ≤ 8 ∧ (∀ g ∈ gs, NoteId.IsGroup g) ∧ NoteId.joined gs = cs := by
  rw [isDotted, Bool.and_eq_true, List.all_eq_true] at h
  refine ⟨cs.splitOn '.', List.splitOn_ne_nil '.' cs, of_decide_eq_true h.2, fun g hg => ?_,
    List.intercalate_splitOn '.'⟩
  have hg := h.1 g hg
  rwa [Bool.and_eq_true, List.all_eq_true, Bool.not_eq_true', List.isEmpty_eq_false_iff] at hg

theorem isIdChar_of_mem_joined {gs : List (List Char)} (hgs : ∀ g ∈ gs, NoteId.IsGroup g) {c : Char}
    (h : c ∈ NoteId.joined gs) : isIdChar c = true := by
  have hdigit : ∀ g ∈ gs, ∀ c ∈ g, isIdChar c = true := by
    intro g hg c hc
    rw [isIdChar, (hgs g hg).2 c hc, Bool.true_or]
  induction gs with
  | nil => exact absurd h List.not_mem_nil
  | cons g gs ih =>
    rw [List.forall_mem_cons] at hgs hdigit
    cases gs with
    | nil =>
      rw [NoteId.joined, List.intercalate_singleton] at h
      exact hdigit.1 c h
    | cons g' gs =>
      rw [NoteId.joined, List.intercalate_cons_cons, List.append_assoc, List.mem_append,
        List.mem_append, List.mem_singleton] at h
      rcases h with h | rfl | h
      · exact hdigit.1 c h
      · rfl
      · exact ih hgs.2 h hdigit.2

/-! ### From a layout to the parts -/

theorem trimStart_lead {lead cs : List Char} (hlead : ∀ c ∈ lead, Text.isSpace c = true) :
    Text.trimStart (lead ++ (opening ++ cs)) = opening ++ cs := by
  rw [Text.trimStart, List.dropWhile_append_of_pos hlead]
  exact Text.dropWhile_eq_self (by intro c hc; obtain rfl := Option.some.inj hc; rfl)

theorem isBreak_of_isBlank {c : Char} (h : Text.isBlank c = true) : Text.isBreak c = false := by
  rw [Text.isBlank, Bool.and_eq_true, Bool.not_eq_true'] at h
  exact h.2

theorem isSpace_of_isBlank {c : Char} (h : Text.isBlank c = true) : Text.isSpace c = true := by
  rw [Text.isBlank, Bool.and_eq_true] at h
  exact h.1

theorem Layout.not_isBreak_of_mem_line (m : Layout) {c : Char} (h : c ∈ m.gap ++ m.title) :
    Text.isBreak c = false := by
  rcases List.mem_append.mp h with h | h
  · exact isBreak_of_isBlank (m.gap_blank c h)
  · exact m.title_line c h

/-- **The parts of a text with a layout are those of the layout.** -/
theorem parts?_text (m : Layout) :
    parts? m.text = some ⟨NoteId.joined m.groups, m.gap ++ m.title, m.body⟩ := by
  have hopen : Text.afterPrefix? opening (Text.trimStart m.text)
      = some (NoteId.joined m.groups ++ ':' :: (m.gap ++ m.title ++ m.body)) := by
    have htrim : Text.trimStart m.text = opening ++ _ := trimStart_lead m.lead_space
    rw [htrim, Text.afterPrefix?_append]
  -- The id ends at the colon, which is neither a digit nor a dot.
  have hid : ∀ c ∈ NoteId.joined m.groups, isIdChar c = true :=
    fun c hc => isIdChar_of_mem_joined m.groups_digits hc
  have hcolon : ∀ c ∈ (':' :: (m.gap ++ m.title ++ m.body)).head?, isIdChar c = false := by
    intro c hc
    obtain rfl := Option.some.inj hc
    rfl
  have hafter : Text.afterPrefix? [':'] (':' :: (m.gap ++ m.title ++ m.body))
      = some (m.gap ++ m.title ++ m.body) :=
    Text.afterPrefix?_append [':'] _
  have hblank : (m.gap ++ m.title ++ m.body).head?.any Text.isBlank = true := by
    obtain ⟨c, gap, hgap⟩ := List.exists_cons_of_ne_nil m.gap_ne_nil
    rw [hgap]
    exact m.gap_blank c (hgap ▸ List.mem_cons_self)
  -- The line ends where the body starts, which is at a line break or at the end of the text.
  have hline : ∀ c ∈ m.gap ++ m.title, (!Text.isBreak c) = true := by
    intro c hc
    rw [m.not_isBreak_of_mem_line hc]
    rfl
  have hstop : ∀ c ∈ m.body.head?, (!Text.isBreak c) = false := by
    intro c hc
    rw [m.body_break c hc]
    rfl
  rw [parts?, hopen]
  simp only [Option.bind_eq_bind, Option.bind_some, Text.takeWhile_append_stop hid hcolon,
    Text.dropWhile_append_stop hid hcolon,
    isDotted_joined m.groups_ne_nil m.groups_length m.groups_digits, hafter, hblank,
    Text.takeWhile_append_stop hline hstop, Text.dropWhile_append_stop hline hstop,
    Bool.not_true, Bool.false_eq_true, ite_false]

/-- **Layouts of one text agree** on all but the border between the blanks and the title. -/
theorem Layout.eq_of_text_eq {m m' : Layout} (h : m.text = m'.text) :
    m.groups = m'.groups ∧ m.gap ++ m.title = m'.gap ++ m'.title ∧ m.body = m'.body := by
  have hparts := parts?_text m
  rw [h, parts?_text m', Option.some.injEq, Parts.mk.injEq] at hparts
  obtain ⟨hid, hline, hbody⟩ := hparts
  refine ⟨?_, hline.symm, hbody.symm⟩
  rw [← NoteId.splitOn_joined m.groups_ne_nil m.groups_digits, ← hid,
    NoteId.splitOn_joined m'.groups_ne_nil m'.groups_digits]

/-! ### From the parts to a layout -/

theorem eq_append_of_afterPrefix? {pre cs rest : List Char}
    (h : Text.afterPrefix? pre cs = some rest) : cs = pre ++ rest := by
  rw [Text.afterPrefix?] at h
  split at h
  · next hpre =>
    obtain ⟨tail, rfl⟩ := List.isPrefixOf_iff_prefix.mp hpre
    rw [List.drop_left] at h
    rw [Option.some.inj h]
  · exact absurd h.symm (Option.some_ne_none rest)

theorem head?_dropWhile_not_isBreak (cs : List Char) :
    ∀ c ∈ (cs.dropWhile (!Text.isBreak ·)).head?, Text.isBreak c = true := by
  intro c hc
  have hstop := List.head?_dropWhile_not (!Text.isBreak ·) cs
  rw [show (cs.dropWhile (!Text.isBreak ·)).head? = some c from hc] at hstop
  simpa using hstop

/-- One blank is enough for the gap, and the rest of the line is the title. -/
theorem exists_layout {lead : List Char} {gs : List (List Char)} {c : Char} (line : List Char)
    (hlead : ∀ c ∈ lead, Text.isSpace c = true) (hne : gs ≠ []) (hlength : gs.length ≤ 8)
    (hgs : ∀ g ∈ gs, NoteId.IsGroup g) (hblank : Text.isBlank c = true) :
    ∃ m : Layout, m.text = lead ++ (opening ++ (NoteId.joined gs ++ ':' :: c :: line)) := by
  refine ⟨{
    lead := lead
    groups := gs
    gap := [c]
    title := line.takeWhile (!Text.isBreak ·)
    body := line.dropWhile (!Text.isBreak ·)
    lead_space := hlead
    groups_ne_nil := hne
    groups_length := hlength
    groups_digits := hgs
    gap_ne_nil := List.cons_ne_nil c []
    gap_blank := ?_
    title_line := ?_
    body_break := head?_dropWhile_not_isBreak line }, ?_⟩
  · intro c' hc'
    rw [List.mem_singleton.mp hc']
    exact hblank
  · intro c' hc'
    have hline := List.mem_takeWhile_imp hc'
    simpa using hline
  · rw [Layout.text, List.append_assoc [c], List.takeWhile_append_dropWhile]
    rfl

/-- **A text that has the parts of a marker has a layout.** -/
theorem exists_layout_of_parts? {cs : List Char} {p : Parts} (h : parts? cs = some p) :
    ∃ m : Layout, m.text = cs := by
  rw [parts?] at h
  simp only [Option.bind_eq_bind, Option.bind_eq_some_iff] at h
  obtain ⟨afterHash, hopen, h⟩ := h
  split at h
  · nomatch h
  next hdotted =>
  rw [Option.bind_eq_some_iff] at h
  obtain ⟨afterColon, hcolon, h⟩ := h
  split at h
  · nomatch h
  next hblank =>
  simp only [Bool.not_eq_true', Bool.not_eq_false] at hdotted hblank
  obtain ⟨gs, hne, hlength, hgs, hjoined⟩ := exists_groups_of_isDotted hdotted
  cases afterColon with
  | nil => nomatch hblank
  | cons c line =>
    have hlead : ∀ c ∈ cs.takeWhile Text.isSpace, Text.isSpace c = true :=
      fun c hc => List.mem_takeWhile_imp hc
    obtain ⟨m, hm⟩ := exists_layout line hlead hne hlength hgs hblank
    have hid : NoteId.joined gs ++ ':' :: c :: line = afterHash := by
      rw [← List.singleton_append, ← eq_append_of_afterPrefix? hcolon, hjoined,
        List.takeWhile_append_dropWhile]
    have hstart : opening ++ afterHash = cs.dropWhile Text.isSpace :=
      (eq_append_of_afterPrefix? hopen).symm
    refine ⟨m, ?_⟩
    rw [hm, hid, hstart, List.takeWhile_append_dropWhile]

/-! ### What is read -/

section Reading

variable {t : String} {m : Layout}

/-- A layout whose values fit is read as a note with these values. -/
theorem read_of_fits (hm : m.text = t.toList) (hfits : m.Fits) :
    ∃ id, read t = .ok ⟨id, String.ofList (Text.trim (m.gap ++ m.title)),
        String.ofList (Text.trim m.body)⟩ ∧
      id.components.map UInt64.toNat = m.values := by
  obtain ⟨id, hid, hvalues⟩ := NoteId.parse_joined m.groups_ne_nil m.groups_length m.groups_digits
    (m.fits_iff.mp hfits)
  refine ⟨id, ?_, hvalues⟩
  rw [read, ← hm, parts?_text]
  simp only [hid]

/-- A layout with a value that does not fit is refused for its id. -/
theorem read_of_large (hm : m.text = t.toList) (hlarge : ∃ n ∈ m.values, UInt64.size ≤ n) :
    read t = .error (.badId ⟨String.ofList (NoteId.joined m.groups)⟩) := by
  obtain ⟨g, hg, hlarge⟩ := m.exists_large_iff.mp hlarge
  rw [read, ← hm, parts?_text]
  simp only [NoteId.parse_joined_of_large m.groups_ne_nil m.groups_digits hg hlarge]

/-- What is not refused as lacking a marker has a layout. -/
theorem exists_layout_of_read (h : read t ≠ .error .absent) : ∃ m : Layout, m.text = t.toList := by
  cases hparts : parts? t.toList with
  | some p => exact exists_layout_of_parts? hparts
  | none =>
    rw [read, hparts] at h
    exact absurd rfl h

theorem read_eq_ok_of_parse? {f : Fragment} (h : parse? t = some f) : read t = .ok f := by
  rw [parse?] at h
  cases hread : read t with
  | error e =>
    rw [hread] at h
    nomatch h
  | ok f' =>
    rw [hread] at h
    rw [Option.some.inj h]

/-- The note that is read from a text, told by any of its layouts. -/
theorem eq_of_parse? {f : Fragment} (h : parse? t = some f) (hm : m.text = t.toList) :
    f.id.components.map UInt64.toNat = m.values ∧
      f.title.toList = Text.trim (m.gap ++ m.title) ∧ f.body.toList = Text.trim m.body := by
  have hread := read_eq_ok_of_parse? h
  rcases m.fits_or_large with hfits | hlarge
  · obtain ⟨id, hok, hvalues⟩ := read_of_fits hm hfits
    rw [hok, Except.ok.injEq] at hread
    subst hread
    exact ⟨hvalues, String.toList_ofList, String.toList_ofList⟩
  · rw [read_of_large hm hlarge] at hread
    nomatch hread

theorem parse?_of_fits (hm : m.text = t.toList) (hfits : m.Fits) : (parse? t).isSome = true := by
  obtain ⟨id, hok, -⟩ := read_of_fits hm hfits
  rw [parse?, hok]
  rfl

theorem exists_layout_of_parse? (h : (parse? t).isSome = true) :
    ∃ m : Layout, m.text = t.toList ∧ m.Fits := by
  obtain ⟨f, hf⟩ := Option.isSome_iff_exists.mp h
  have hread := read_eq_ok_of_parse? hf
  obtain ⟨m, hm⟩ := exists_layout_of_read (t := t) (by rw [hread]; nofun)
  refine ⟨m, hm, m.fits_or_large.resolve_right fun hlarge => ?_⟩
  rw [read_of_large hm hlarge] at hread
  nomatch hread

/-- A note that is refused for its id is reported with the id. -/
theorem journal_of_large (hm : m.text = t.toList) (hlarge : ∃ n ∈ m.values, UInt64.size ≤ n) :
    parse? t = none ∧
      journal t = [⟨.debug, "archnotes_core::marker", "Ignoring marker: " ++
        ("Invalid note id `" ++ String.ofList (NoteId.joined m.groups) ++ "`")⟩] := by
  have hread := read_of_large hm hlarge
  constructor
  · rw [parse?, hread]
    rfl
  · rw [journal, hread]
    rfl

/-- Nothing else is reported. -/
theorem exists_layout_of_journal (h : journal t ≠ []) :
    ∃ m : Layout, m.text = t.toList ∧ ∃ n ∈ m.values, UInt64.size ≤ n := by
  obtain ⟨m, hm⟩ := exists_layout_of_read (t := t) (by
    intro habsent
    rw [journal, habsent] at h
    exact h rfl)
  refine ⟨m, hm, m.fits_or_large.resolve_left fun hfits => ?_⟩
  obtain ⟨id, hok, -⟩ := read_of_fits hm hfits
  rw [journal, hok] at h
  exact h rfl

end Reading

/-- **Notes are read from exactly the texts that the grammar describes.**  A text is a note if it
has a layout whose numbers fit, and any layout tells the same note.  A text with a layout whose
numbers do not all fit is no note, and this is reported with the id; nothing else is. -/
theorem parse?_iff_layout (t : String) :
    ((parse? t).isSome = true ↔ ∃ m : Layout, m.text = t.toList ∧ m.Fits) ∧
    (∀ m m' : Layout, m.text = t.toList → m'.text = t.toList →
      m.values = m'.values ∧ Text.trim (m.gap ++ m.title) = Text.trim (m'.gap ++ m'.title) ∧
        Text.trim m.body = Text.trim m'.body) ∧
    (∀ f, parse? t = some f → ∀ m : Layout, m.text = t.toList →
      f.id.components.map UInt64.toNat = m.values ∧
        f.title.toList = Text.trim (m.gap ++ m.title) ∧ f.title.toList = Text.trim m.title ∧
        f.body.toList = Text.trim m.body) ∧
    (∀ f, parse? t = some f →
      (∀ c ∈ f.title.toList, Text.isBreak c = false) ∧ Text.Trimmed f.title.toList ∧
        Text.Trimmed f.body.toList) ∧
    (journal t ≠ [] ↔ ∃ m : Layout, m.text = t.toList ∧ ∃ n ∈ m.values, UInt64.size ≤ n) ∧
    (∀ m : Layout, m.text = t.toList → (∃ n ∈ m.values, UInt64.size ≤ n) → parse? t = none ∧
      journal t = [⟨.debug, "archnotes_core::marker", "Ignoring marker: " ++
        ("Invalid note id `" ++ String.ofList (NoteId.joined m.groups) ++ "`")⟩]) := by
  refine ⟨⟨exists_layout_of_parse?, ?_⟩, ?_, ?_, ?_, ⟨exists_layout_of_journal, ?_⟩,
    fun m hm hlarge => journal_of_large hm hlarge⟩
  · rintro ⟨m, hm, hfits⟩
    exact parse?_of_fits hm hfits
  · intro m m' hm hm'
    obtain ⟨hgroups, hline, hbody⟩ := Layout.eq_of_text_eq (hm.trans hm'.symm)
    rw [Layout.values, Layout.values, hgroups, hline, hbody]
    exact ⟨rfl, rfl, rfl⟩
  · intro f hf m hm
    obtain ⟨hvalues, htitle, hbody⟩ := eq_of_parse? hf hm
    refine ⟨hvalues, htitle, ?_, hbody⟩
    rw [htitle]
    exact Text.trim_append_of_isSpace fun c hc => isSpace_of_isBlank (m.gap_blank c hc)
  · intro f hf
    obtain ⟨m, hm, -⟩ := exists_layout_of_parse? (Option.isSome_iff_exists.mpr ⟨f, hf⟩)
    obtain ⟨-, htitle, hbody⟩ := eq_of_parse? hf hm
    rw [htitle, hbody]
    exact ⟨fun c hc => m.not_isBreak_of_mem_line (Text.mem_of_mem_trim hc), Text.trimmed_trim _,
      Text.trimmed_trim _⟩
  · rintro ⟨m, hm, hlarge⟩
    rw [(journal_of_large hm hlarge).2]
    exact List.cons_ne_nil _ _

end CodeNotes.Marker
