import CodeNotes.Project.Build
import CodeNotes.Proofs.Note.Order
import CodeNotes.Proofs.Path.Components
import CodeNotes.Proofs.Project.Collect

/-!
# Projects that look alike

A document shows less of a note than the note holds: of its path only how the directory of the
project sees it (`Document.shown`).  Two files are *alike*, each seen from the directory of its own
project, if they are seen in the same way, are in the same language and have the same text
(`Project.Alike`).  Projects whose files are alike, one by one, have the same document or none
(`build_of_alike`).
-/

namespace CodeNotes

/-! ### What a document shows -/

namespace Document

/-- What a document shows of a note. -/
def shown (dir : Path) (n : Note) : NoteId × String × String × LineRange × String :=
  (n.id, n.title, n.body, n.lines, (n.path.relativeTo dir).linkText)

variable {options : RenderOptions} {dir₁ dir₂ : Path}

theorem noteParts_congr {m n : Note} (h : shown dir₁ m = shown dir₂ n) :
    noteParts options dir₁ m = noteParts options dir₂ n := by
  simp only [shown, Prod.mk.injEq] at h
  obtain ⟨hid, htitle, hbody, hlines, hlink⟩ := h
  unfold noteParts heading contextLink linkTarget
  rw [hid, htitle, hbody, hlines, hlink]

/-- The document is made of what it shows. -/
theorem render_congr {notes₁ notes₂ : List Note}
    (h : notes₁.map (shown dir₁) = notes₂.map (shown dir₂)) :
    render options dir₁ notes₁ = render options dir₂ notes₂ := by
  have hempty : notes₁.isEmpty = notes₂.isEmpty := by
    rw [← List.isEmpty_map (f := shown dir₁), h, List.isEmpty_map]
  have hparts : notes₁.flatMap (noteParts options dir₁) =
      notes₂.flatMap (noteParts options dir₂) := by
    clear hempty
    induction notes₁ generalizing notes₂ with
    | nil =>
      obtain rfl := List.map_eq_nil_iff.mp h.symm
      rw [List.flatMap_nil, List.flatMap_nil]
    | cons m notes₁ ih =>
      cases notes₂ with
      | nil => exact absurd h (by simp)
      | cons n notes₂ =>
        obtain ⟨hhead, htail⟩ := List.cons.inj h
        rw [List.flatMap_cons, List.flatMap_cons, noteParts_congr hhead, ih htail]
  unfold render parts
  rw [hempty, hparts]

end Document

open Document

theorem Note.map_shown_sort (dir : Path) (notes : List Note) :
    (sort notes).map (shown dir) =
      (notes.map (shown dir)).mergeSort fun a b => (compare a.1 b.1).isLE := by
  rw [sort_eq_mergeSort]
  exact List.map_mergeSort fun _ _ _ _ => rfl

/-! ### Files that are alike -/

theorem FileSource.read_ofDisk_congr [Ignore.Engine] {disk₁ disk₂ : Disk} {p q : Path}
    (h : disk₁.readText p = disk₂.readText q) : (ofDisk disk₁).read p = (ofDisk disk₂).read q := by
  unfold ofDisk
  dsimp only
  rw [h]

namespace Project

/-- Two files that a document cannot tell apart. -/
structure Alike (files₁ files₂ : FileSource) (dir₁ dir₂ p q : Path) : Prop where
  /-- The directories of the projects see them in the same way. -/
  link : (p.relativeTo dir₁).linkText = (q.relativeTo dir₂).linkText
  language : Language.ofPath p = Language.ofPath q
  read : files₁.read p = files₂.read q

variable {files₁ files₂ : FileSource} {dir₁ dir₂ p q : Path} {paths₁ paths₂ : List Path}

theorem map_shown_notesOfComments
    (hlink : (p.relativeTo dir₁).linkText = (q.relativeTo dir₂).linkText)
    (comments : List Comment) :
    (Source.notesOfComments p comments).map (shown dir₁) =
      (Source.notesOfComments q comments).map (shown dir₂) := by
  rw [Source.notesOfComments, Source.notesOfComments, List.map_filterMap, List.map_filterMap]
  refine List.filterMap_congr fun c _ => ?_
  cases Marker.parse? c.text with
  | none => simp only [Option.map_none]
  | some f => simp only [Option.map_some, shown, Fragment.at, hlink]

/-- Files that are alike both fail or show the same notes. -/
theorem notesOfFile_of_alike (h : Alike files₁ files₂ dir₁ dir₂ p q) :
    (notesOfFile files₁ p).toOption.map (·.map (shown dir₁)) =
      (notesOfFile files₂ q).toOption.map (·.map (shown dir₂)) := by
  unfold notesOfFile
  rw [h.read]
  cases files₂.read q with
  | error fault => simp only [Except.toOption, Option.map_none]
  | ok source =>
    have hcomments : Source.commentsOfFile p source = Source.commentsOfFile q source := by
      rw [Source.commentsOfFile, Source.commentsOfFile, h.language]
    simp only [Source.extract, hcomments]
    cases Source.commentsOfFile q source with
    | error fault => simp only [Except.map, Except.toOption, Option.map_none]
    | ok comments =>
      simp only [Except.map, Except.toOption, Option.map_some,
        map_shown_notesOfComments h.link comments]

theorem mapM_notesOfFile_of_alike (h : List.Forall₂ (Alike files₁ files₂ dir₁ dir₂) paths₁ paths₂) :
    (paths₁.mapM (notesOfFile files₁)).toOption.map (·.map (·.map (shown dir₁))) =
      (paths₂.mapM (notesOfFile files₂)).toOption.map (·.map (·.map (shown dir₂))) := by
  induction h with
  | nil => simp [pure, Except.pure, Except.toOption]
  | @cons p q paths₁ paths₂ hpq _ ih =>
    have hhead := notesOfFile_of_alike hpq
    rw [List.mapM_cons, List.mapM_cons]
    cases hp : notesOfFile files₁ p with
    | error f =>
      cases hq : notesOfFile files₂ q with
      | error g => simp only [bind, Except.bind, Except.toOption, Option.map_none]
      | ok notes => simp [hp, hq, Except.toOption] at hhead
    | ok notes₁ =>
      cases hq : notesOfFile files₂ q with
      | error g => simp [hp, hq, Except.toOption] at hhead
      | ok notes₂ =>
        have hnotes : notes₁.map (shown dir₁) = notes₂.map (shown dir₂) := by
          simpa [hp, hq, Except.toOption] using hhead
        cases hps : paths₁.mapM (notesOfFile files₁) <;>
          cases hqs : paths₂.mapM (notesOfFile files₂) <;>
          simp_all [Except.toOption, bind, Except.bind, pure, Except.pure]

variable {options : RenderOptions} {patterns₁ patterns₂ ignore₁ ignore₂ : List String}

theorem collect_of_alike (hresolve₁ : files₁.resolve patterns₁ ignore₁ dir₁ = .ok paths₁)
    (hresolve₂ : files₂.resolve patterns₂ ignore₂ dir₂ = .ok paths₂)
    (h : List.Forall₂ (Alike files₁ files₂ dir₁ dir₂) paths₁ paths₂) :
    (collect files₁ dir₁ patterns₁ ignore₁).toOption.map (·.map (shown dir₁)) =
      (collect files₂ dir₂ patterns₂ ignore₂).toOption.map (·.map (shown dir₂)) := by
  have hparts := congrArg (Option.map List.flatten) (mapM_notesOfFile_of_alike h)
  rw [collect_of_resolve_ok hresolve₁, collect_of_resolve_ok hresolve₂]
  cases hps : paths₁.mapM (notesOfFile files₁) <;>
    cases hqs : paths₂.mapM (notesOfFile files₂) <;>
    simp_all [Except.toOption, Except.map, List.map_flatten]

theorem toOption_build {files : FileSource} {dir : Path} {patterns ignore : List String} :
    (build files options dir patterns ignore).toOption =
      (checkOptions options).toOption.bind fun _ =>
        (collect files dir patterns ignore).toOption.map fun found =>
          render options dir (Note.sort found) := by
  unfold build notes
  cases checkOptions options <;> cases collect files dir patterns ignore <;>
    simp only [Except.bind, Except.map, Except.toOption, Option.bind_some, Option.bind_none,
      Option.map_some, Option.map_none]

/-- **Projects whose files are alike have the same document, or none.** -/
theorem build_of_alike (hresolve₁ : files₁.resolve patterns₁ ignore₁ dir₁ = .ok paths₁)
    (hresolve₂ : files₂.resolve patterns₂ ignore₂ dir₂ = .ok paths₂)
    (h : List.Forall₂ (Alike files₁ files₂ dir₁ dir₂) paths₁ paths₂) :
    (build files₁ options dir₁ patterns₁ ignore₁).toOption =
      (build files₂ options dir₂ patterns₂ ignore₂).toOption := by
  have hcollect := collect_of_alike hresolve₁ hresolve₂ h
  have hdocument : ∀ found₁ found₂ : List Note,
      found₁.map (shown dir₁) = found₂.map (shown dir₂) →
      render options dir₁ (Note.sort found₁) = render options dir₂ (Note.sort found₂) := by
    intro found₁ found₂ hfound
    apply render_congr
    rw [Note.map_shown_sort, Note.map_shown_sort, hfound]
  have htext : ((collect files₁ dir₁ patterns₁ ignore₁).toOption.map fun found =>
      render options dir₁ (Note.sort found)) =
        (collect files₂ dir₂ patterns₂ ignore₂).toOption.map fun found =>
          render options dir₂ (Note.sort found) := by
    cases hc₁ : (collect files₁ dir₁ patterns₁ ignore₁).toOption with
    | none =>
      rw [hc₁, Option.map_none, eq_comm, Option.map_eq_none_iff] at hcollect
      rw [hcollect, Option.map_none, Option.map_none]
    | some found₁ =>
      rw [hc₁, Option.map_some, eq_comm, Option.map_eq_some_iff] at hcollect
      obtain ⟨found₂, hc₂, hfound⟩ := hcollect
      rw [hc₂, Option.map_some, Option.map_some, hdocument found₁ found₂ hfound.symm]
  rw [toOption_build, toOption_build, htext]

/-- Where the files of two projects cannot be told, neither has a document. -/
theorem build_of_resolve_error {failure₁ failure₂ : Failure}
    (hresolve₁ : files₁.resolve patterns₁ ignore₁ dir₁ = .error failure₁)
    (hresolve₂ : files₂.resolve patterns₂ ignore₂ dir₂ = .error failure₂) :
    (build files₁ options dir₁ patterns₁ ignore₁).toOption =
      (build files₂ options dir₂ patterns₂ ignore₂).toOption := by
  rw [toOption_build, toOption_build, collect_of_resolve_error hresolve₁,
    collect_of_resolve_error hresolve₂]
  simp only [Except.toOption, Option.map_none]

end Project

end CodeNotes
