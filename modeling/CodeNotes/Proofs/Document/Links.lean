import CodeNotes.Document.Link
import CodeNotes.Proofs.Note.Id
import CodeNotes.Proofs.Path.Lexical
import CodeNotes.Proofs.Text.Scan

/-!
# Links that lead back

A link is its start, a slash, the file as seen from the working directory, and the lines
(`toList_contextLink`).  The lines are read from behind the last `#L`, since no `#` follows it,
whatever the path is made of (`readLines?_append`).  What stands before them is the way from the
working directory to the file, told by the text alone: for absolute paths it always leads there
(`link_leads_back`), for relative ones it does unless the directory is written with a `.` in front
and the file is not (`relative_link_leads`).
-/

namespace CodeNotes.Document

/-! ### The lines of a link -/

/-- What follows the last `#L` of a text. -/
def afterMark? : List Char → Option (List Char)
  | [] => none
  | c :: cs => (afterMark? cs).or (Text.afterPrefix? ['#', 'L'] (c :: cs))

/-- The lines that a link says behind its last `#L`. -/
def readLines? (link : String) : Option LineRange :=
  (afterMark? link.toList).bind fun rest =>
    let first := rest.takeWhile Text.isDigit
    (Text.afterPrefix? ['-', 'L'] (rest.dropWhile Text.isDigit)).map fun more =>
      ⟨NoteId.digitsValue first, NoteId.digitsValue (more.takeWhile Text.isDigit)⟩

theorem afterMark?_of_not_mem {cs : List Char} (h : '#' ∉ cs) : afterMark? cs = none := by
  induction cs with
  | nil => rfl
  | cons c cs ih =>
    rw [List.mem_cons, not_or] at h
    rw [afterMark?, ih h.2, Option.none_or, Text.afterPrefix?, if_neg]
    simp [List.isPrefixOf, h.1]

theorem afterMark?_append {rest : List Char} (h : '#' ∉ rest) (front : List Char) :
    afterMark? (front ++ '#' :: 'L' :: rest) = some rest := by
  induction front with
  | nil =>
    have hrest : '#' ∉ 'L' :: rest := List.not_mem_cons_of_ne_of_not_mem (by decide) h
    rw [List.nil_append, afterMark?, afterMark?_of_not_mem hrest, Option.none_or]
    exact Text.afterPrefix?_append ['#', 'L'] rest
  | cons c front ih => rw [List.cons_append, afterMark?, ih, Option.some_or]

/-- What follows the file in a link. -/
def linesText (lines : LineRange) : List Char :=
  '#' :: 'L' :: (lines.first.repr.toList ++ '-' :: 'L' :: (lines.last.repr.toList ++ [')']))

/-- The lines are read back from behind the last `#L`, whatever stands before it. -/
theorem readLines?_append {link : String} {front : List Char} {lines : LineRange}
    (h : link.toList = front ++ linesText lines) : readLines? link = some lines := by
  have hdigits : ∀ n : Nat, ∀ c ∈ n.repr.toList, Text.isDigit c = true :=
    fun n c hc => NoteId.isDigit_of_mem_repr hc
  have hhash : ∀ n : Nat, '#' ∉ n.repr.toList := fun n hmem => nomatch hdigits n '#' hmem
  -- Digits, `-L` and the bracket that closes the link have no `#` in them.
  have hmark : afterMark? link.toList = some (lines.first.repr.toList ++
      '-' :: 'L' :: (lines.last.repr.toList ++ [')'])) := by
    rw [h]
    refine afterMark?_append ?_ front
    simp only [List.mem_append, List.mem_cons, not_or]
    exact ⟨hhash _, by decide, by decide, hhash _, by decide, List.not_mem_nil⟩
  have hdash : ∀ c ∈ ('-' :: 'L' :: (lines.last.repr.toList ++ [')'])).head?,
      Text.isDigit c = false := by
    rintro _ ⟨rfl⟩
    rfl
  have hclose : ∀ c ∈ [')'].head?, Text.isDigit c = false := by
    rintro _ ⟨rfl⟩
    rfl
  have hmore : Text.afterPrefix? ['-', 'L'] ('-' :: 'L' :: (lines.last.repr.toList ++ [')']))
      = some (lines.last.repr.toList ++ [')']) := Text.afterPrefix?_append ['-', 'L'] _
  rw [readLines?, hmark, Option.bind_some, Text.takeWhile_append_stop (hdigits _) hdash,
    Text.dropWhile_append_stop (hdigits _) hdash, hmore, Option.map_some,
    Text.takeWhile_append_stop (hdigits _) hclose, NoteId.digitsValue_repr,
    NoteId.digitsValue_repr]

/-! ### The parts of a link -/

/-- What stands before the file in a link. -/
def linkStart (base : String) : List Char :=
  "[See in context](".toList ++ (linkBase base).toList ++ ['/']

theorem toList_contextLink (note : Note) (dir : Path) (base : String) :
    (contextLink note dir base).toList =
      linkStart base ++ (note.path.relativeTo dir).linkText.toList ++ linesText note.lines := by
  unfold contextLink linkTarget linkStart linesText
  simp only [String.toList_append, List.append_assoc]
  rfl

/-- Links that are equal show the same file and the same lines. -/
theorem eq_of_contextLink_eq {note₁ note₂ : Note} {dir : Path} {base : String}
    (h : contextLink note₁ dir base = contextLink note₂ dir base) :
    (note₁.path.relativeTo dir).linkText = (note₂.path.relativeTo dir).linkText ∧
      note₁.lines = note₂.lines := by
  have hlines : note₁.lines = note₂.lines := by
    have hread := readLines?_append (toList_contextLink note₁ dir base)
    rw [h, readLines?_append (toList_contextLink note₂ dir base)] at hread
    exact (Option.some.inj hread).symm
  have htext := congrArg String.toList h
  rw [toList_contextLink, toList_contextLink, hlines] at htext
  have hfile := List.append_cancel_left (List.append_cancel_right htext)
  exact ⟨String.toList_inj.mp hfile, hlines⟩

/-- The start of a link is what it was given, less the slashes at its end. -/
theorem exists_linkBase (base : String) :
    ∃ n, base.toList = (linkBase base).toList ++ List.replicate n '/' ∧
      (linkBase base).toList.getLast? ≠ some '/' := by
  rw [linkBase, String.toList_ofList]
  refine ⟨(base.toList.rtakeWhile (· == '/')).length, ?_, fun hlast => ?_⟩
  · have hslashes : base.toList.rtakeWhile (· == '/')
        = List.replicate (base.toList.rtakeWhile (· == '/')).length '/' := by
      rw [List.eq_replicate_iff]
      refine ⟨rfl, fun c hc => ?_⟩
      have hslash := List.mem_rtakeWhile_imp hc
      exact eq_of_beq hslash
    rw [← hslashes]
    exact List.rdropWhile_append_rtakeWhile.symm
  · nomatch Text.getLast?_dropEndWhile '/' hlast

/-! ### Absolute paths -/

/-- **A link leads back to its file.**  With absolute paths and a working directory without `..`, a
link is its start without trailing slashes, a slash, the way from the directory to the file, and the
lines.  Links with the same start that are equal lead to the same file and the same lines. -/
theorem link_leads_back {dir : Path} (hdir : dir.isAbsolute = true)
    (hup : .parent ∉ dir.components) (base : String) :
    (∀ note : Note, note.path.isAbsolute = true →
      ∃ (start : String) (n : Nat) (file : String),
        base = start ++ String.ofList (List.replicate n '/') ∧
        start.toList.getLast? ≠ some '/' ∧
        contextLink note dir base = "[See in context](" ++ (start ++ "/" ++ file ++
          "#L" ++ note.lines.first.repr ++ "-L" ++ note.lines.last.repr) ++ ")" ∧
        file.toList.head? ≠ some '/' ∧
        Path.Place.follow ⟨true, 0, dir.components.tail.map Path.Component.text⟩ file
          = note.path.lexical ∧
        readLines? (contextLink note dir base) = some note.lines) ∧
    ∀ note₁ note₂ : Note, note₁.path.isAbsolute = true → note₂.path.isAbsolute = true →
      contextLink note₁ dir base = contextLink note₂ dir base →
      note₁.path.lexical = note₂.path.lexical ∧ note₁.lines = note₂.lines := by
  have hfollow : ∀ p : Path, p.isAbsolute = true →
      dir.lexical.follow (p.relativeTo dir).linkText = p.lexical :=
    fun p hp => Path.follow_relativeTo hp hdir hup
  refine ⟨fun note hnote => ?_, fun note₁ note₂ h₁ h₂ h => ?_⟩
  · obtain ⟨n, hbase, hlast⟩ := exists_linkBase base
    refine ⟨linkBase base, n, (note.path.relativeTo dir).linkText, ?_, hlast, rfl, ?_, ?_,
      readLines?_append (toList_contextLink note dir base)⟩
    · rw [← String.toList_inj, String.toList_append, String.toList_ofList, hbase]
    · exact Path.head?_linkText (Path.root_not_mem_relativeTo (hnote.trans hdir.symm))
    · rw [← Path.lexical_of_absolute hdir hup, hfollow _ hnote]
  · obtain ⟨hfile, hlines⟩ := eq_of_contextLink_eq h
    refine ⟨?_, hlines⟩
    rw [← hfollow _ h₁, hfile, hfollow _ h₂]

/-- A note in a file whose name looks like lines, above the directory that it is seen from. -/
def markedNote : Note :=
  ⟨⟨[7], by decide, by decide⟩, "T", "", ⟨"/repo/packages/../lib/.//#L3-L4.js"⟩, ⟨10, 14⟩⟩

theorem link_leads_back_from_app :
    contextLink markedNote ⟨"/repo/packages/app/"⟩ "docs//"
        = "[See in context](docs/../../lib/#L3-L4.js#L10-L14)" ∧
    ∃ (start : String) (n : Nat) (file : String),
      "docs//" = start ++ String.ofList (List.replicate n '/') ∧
      start.toList.getLast? ≠ some '/' ∧
      contextLink markedNote ⟨"/repo/packages/app/"⟩ "docs//" =
        "[See in context](" ++ (start ++ "/" ++ file ++ "#L" ++ markedNote.lines.first.repr ++
          "-L" ++ markedNote.lines.last.repr) ++ ")" ∧
      file.toList.head? ≠ some '/' ∧
      Path.Place.follow ⟨true, 0, ["repo", "packages", "app"]⟩ file = markedNote.path.lexical ∧
      readLines? (contextLink markedNote ⟨"/repo/packages/app/"⟩ "docs//")
        = some markedNote.lines :=
  ⟨by decide +kernel, (@link_leads_back ⟨"/repo/packages/app/"⟩ (by decide) (by decide)
    "docs//").1 markedNote (by decide)⟩

/-! ### Relative paths -/

/-- **Where a link leads from a relative directory.**  With relative paths that are written without
`..`, the way that a link shows leads from the directory to the file, with its `.` dropped, unless
the directory starts with `.` and the file does not.  Then it leads one directory too high. -/
theorem relative_link_leads {note : Note} {dir : Path} (hpath : note.path.isAbsolute = false)
    (hdir : dir.isAbsolute = false) (hpathUp : .parent ∉ note.path.components)
    (hdirUp : .parent ∉ dir.components) (base : String) :
    ∃ file, contextLink note dir base = "[See in context](" ++ (linkBase base ++ "/" ++ file ++
        "#L" ++ note.lines.first.repr ++ "-L" ++ note.lines.last.repr) ++ ")" ∧
      Path.Place.follow ⟨false, 0, dir.withoutDots⟩ file
        = ⟨false, if note.path.Mismatched dir then 1 else 0, note.path.withoutDots⟩ ∧
      (Path.Place.follow ⟨false, 0, dir.withoutDots⟩ file = ⟨false, 0, note.path.withoutDots⟩ ↔
        ¬note.path.Mismatched dir) := by
  have hfollow := Path.follow_relativeTo_of_relative hpath hdir hpathUp hdirUp
  rw [Path.lexical_of_relative hdir hdirUp] at hfollow
  refine ⟨(note.path.relativeTo dir).linkText, rfl, hfollow, ?_⟩
  rw [hfollow]
  by_cases h : note.path.Mismatched dir <;> simp [h]

/-- A note in a file beside the directory that it is seen from. -/
def besideNote : Note :=
  ⟨⟨[7], by decide, by decide⟩, "T", "", ⟨"lib/./a.js"⟩, ⟨1, 1⟩⟩

theorem relative_link_leads_to_lib :
    contextLink besideNote ⟨"src"⟩ "." = "[See in context](./../lib/a.js#L1-L1)" ∧
    ∃ file, contextLink besideNote ⟨"src"⟩ "." =
        "[See in context](" ++ (linkBase "." ++ "/" ++ file ++ "#L" ++
          besideNote.lines.first.repr ++ "-L" ++ besideNote.lines.last.repr) ++ ")" ∧
      Path.Place.follow ⟨false, 0, ["src"]⟩ file = ⟨false, 0, ["lib", "a.js"]⟩ ∧
      (Path.Place.follow ⟨false, 0, ["src"]⟩ file = ⟨false, 0, ["lib", "a.js"]⟩ ↔
        ¬besideNote.path.Mismatched ⟨"src"⟩) :=
  ⟨by decide +kernel, @relative_link_leads besideNote ⟨"src"⟩ (by decide) (by decide) (by decide)
    (by decide) "."⟩

/-- The note of a file in the current directory, as it is found from `.`. -/
def currentNote : Note :=
  ⟨⟨[7], by decide, by decide⟩, "T", "", ⟨"a.js"⟩, ⟨1, 1⟩⟩

/-- Seen from `.`, a file in the current directory is looked for in the directory above. -/
theorem relative_link_misses :
    (currentNote.path.isAbsolute = false ∧ Path.isAbsolute ⟨"."⟩ = false ∧
      .parent ∉ currentNote.path.components ∧ .parent ∉ Path.components ⟨"."⟩) ∧
    contextLink currentNote ⟨"."⟩ "." = "[See in context](./../a.js#L1-L1)" ∧
    Path.Place.follow ⟨false, 0, Path.withoutDots ⟨"."⟩⟩ "../a.js"
      ≠ ⟨false, 0, currentNote.path.withoutDots⟩ := by
  refine ⟨⟨by decide, by decide, by decide, by decide⟩, by decide +kernel, by decide +kernel⟩

end CodeNotes.Document
