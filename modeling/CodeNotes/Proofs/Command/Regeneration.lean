import CodeNotes.Proofs.Command.Run
import CodeNotes.Proofs.Pattern.NewFile
import CodeNotes.Proofs.Project.Selection

/-!
# Running again

A document that was written into the project is a new file in it, and a second run sees a disk that
differs by this file.  If the file is none of the files that the second run resolves, these are the
files that the first run had (`resolve_again`), with the same text, so the document is the same and
writing it again changes nothing (`run_again`).

The settings must not be looked up at the file either, nor through it: a link to a place beyond it
leads nowhere before the first run, which is no fault, and cannot be followed afterwards
(`run_again_fails`).
-/

namespace CodeNotes

open Disk

/-- Two paths lead to the same place. -/
def Disk.SamePlace (d : Disk) (p q : Path) : Prop :=
  ∃ l, d.locate p = .ok l ∧ d.locate q = .ok l

instance (d : Disk) (p q : Path) : Decidable (d.SamePlace p q) :=
  match hp : d.locate p with
  | .error _ => isFalse fun ⟨_, h, _⟩ => nomatch hp.symm.trans h
  | .ok l => decidable_of_iff (d.locate q = .ok l)
      ⟨fun h => ⟨l, hp, h⟩, fun ⟨_, h, h'⟩ => Except.ok.inj (hp.symm.trans h) ▸ h'⟩

section Written

variable {d d' : Disk} {p : Path} {content : ByteArray} {loc : Location}

namespace Selection

variable {dir : Path}

/-- Of the files found after a write those are left that were there before. -/
theorem find_again (h : Written d p content d' loc) (pattern : String) :
    (find d' dir pattern).fault = (find d dir pattern).fault ∧
      (find d' dir pattern).files.filter d.isFile = (find d dir pattern).files := by
  unfold find
  cases hq : Pattern.query (rooted dir pattern) with
  | error m => exact ⟨rfl, rfl⟩
  | ok q =>
    have hagrees := Pattern.run_agrees h hq
    refine ⟨by simp only [hagrees.blocked], ?_⟩
    have hkeep : ∀ path, (d.isFile path && d'.isFile path) = d.isFile path := by
      intro path
      cases hfile : d.isFile path with
      | false => rfl
      | true => simp [(isFile_of_differs h.differs hfile).1]
    simp only [List.filter_filter, hkeep, hagrees.paths]

theorem candidates_again (h : Written d p content d' loc) (patterns : List String)
    (ignored : List (List Ignore.Token)) :
    (candidates d' patterns ignored dir).filter d.isFile = candidates d patterns ignored dir := by
  unfold candidates
  rw [List.filter_comm, List.filter_flatMap]
  simp only [(find_again h _).2]

/-- **The second run has the files of the first**, unless what was written is among them. -/
theorem resolve_again [Ignore.Engine] (h : Written d p content d' loc)
    {patterns ignore : List String} {paths : List Path}
    (hresolve : resolve d patterns ignore dir = .ok paths)
    (hfiles : ∀ paths', resolve d' patterns ignore dir = .ok paths' →
      ∀ q ∈ paths', d'.locate q ≠ .ok loc) :
    resolve d' patterns ignore dir = .ok paths := by
  obtain ⟨hfault, ignored, hignored, rfl⟩ := resolve_eq_ok_iff.mp hresolve
  have hresolve' : resolve d' patterns ignore dir =
      .ok (sorted (candidates d' patterns ignored dir)) := by
    refine resolve_eq_ok_iff.mpr ⟨fun pattern hpattern => ?_, ignored, hignored, rfl⟩
    rw [(find_again h pattern).1, hfault pattern hpattern]
  have hold : ∀ q ∈ candidates d' patterns ignored dir, d.isFile q = true := by
    intro q hq
    refine isFile_of_differs_of_ne h.differs (isFile_of_mem_candidates hq) fun hloc => ?_
    -- The spelling that is kept leads to the same place.
    obtain ⟨r, hr, hcomponents⟩ := exists_mem_sorted hq
    obtain ⟨l, hl⟩ := exists_locate_of_isFile (isFile_of_mem_candidates (mem_of_mem_sorted hr))
    obtain rfl := locate_congr hcomponents hl hloc
    exact hfiles _ hresolve' r hr hl
  rw [hresolve', ← candidates_again h, List.filter_eq_self.mpr hold]

end Selection

namespace Project

open Selection

variable {dir : Path} {options : RenderOptions} {patterns ignore : List String}

theorem mapM_congr {α β ε : Type} {f g : α → Except ε β} {l : List α} (h : ∀ x ∈ l, f x = g x) :
    l.mapM f = l.mapM g := by
  induction l with
  | nil => rfl
  | cons x l ih =>
    rw [List.forall_mem_cons] at h
    rw [List.mapM_cons, List.mapM_cons, h.1, ih h.2]

/-- Where the second run has the files of the first, it has their notes. -/
theorem notes_again [Ignore.Engine] (h : Written d p content d' loc) {notes : List Note}
    (hnotes : Project.notes (.ofDisk d) options dir patterns ignore = .ok notes)
    (hfiles : ∀ paths, resolve d' patterns ignore dir = .ok paths →
      ∀ q ∈ paths, d'.locate q ≠ .ok loc) :
    Project.notes (.ofDisk d') options dir patterns ignore = .ok notes := by
  obtain ⟨u, hoptions, hcollect⟩ := bind_eq_ok hnotes
  have hcollect' : collect (.ofDisk d') dir patterns ignore =
      collect (.ofDisk d) dir patterns ignore := by
    cases hresolve : resolve d patterns ignore dir with
    | error failure =>
      rw [collect, show (FileSource.ofDisk d).resolve patterns ignore dir = _ from hresolve] at hcollect
      cases hcollect
    | ok paths =>
      have hresolve' := resolve_again h hresolve hfiles
      rw [collect_of_resolve_ok hresolve', collect_of_resolve_ok hresolve]
      congr 1
      refine mapM_congr fun q hq => ?_
      have hfile : d.isFile q = true := by
        obtain ⟨-, ignored, -, rfl⟩ := resolve_eq_ok_iff.mp hresolve
        exact isFile_of_mem_candidates (mem_of_mem_sorted hq)
      have hread := FileSource.read_ofDisk_congr (readText_of_differs h.differs
        (isFile_of_differs h.differs hfile).2 (hfiles paths hresolve' q hq))
      unfold notesOfFile
      rw [hread]
  unfold Project.notes
  rw [hoptions, hcollect']
  exact hcollect

end Project

namespace Command

variable {a : Arguments} {dir : Path} {c : ProjectConfig} {text : String}

theorem locate_again (h : Differs d d' loc) {q : Path} {l : Location} (hl : d.locate q = .ok l) :
    d'.locate q = .ok l := by
  rcases locate_of_differs h q with hsame | ⟨hold, -⟩
  · rw [hsame, hl]
  · rw [hl] at hold
    nomatch hold

theorem directory_again (h : Differs d d' loc) (hdir : directory d a = .ok dir) :
    directory d' a = .ok dir := by
  unfold directory canonical at hdir ⊢
  rw [h.here]
  cases hl : d.locate (a.cwd.getD (pathOf d.here)) with
  | error fault =>
    simp only [hl, Except.map] at hdir
    nomatch hdir
  | ok l =>
    simp only [hl, Except.map] at hdir
    simp only [locate_again h hl, Except.map, hdir]

theorem configPath_again (h : Differs d d' loc) {path : Path}
    (hpath : configPath d a dir = .ok path) :
    configPath d' a dir = .ok path := by
  unfold configPath at hpath ⊢
  cases hconfig : a.config with
  | none => rwa [hconfig] at hpath
  | some given =>
    simp only [hconfig] at hpath ⊢
    cases hl : d.locate given with
    | error fault =>
      simp only [present, hl, Except.toOption, Option.isSome_none, Bool.false_eq_true, if_false] at hpath
      cases hpath
    | ok l =>
      simp only [present, hl, Except.toOption, Option.isSome_some, if_true] at hpath
      simp only [present, locate_again h hl, Except.toOption, Option.isSome_some, if_true, hpath]

/-- The settings stay as they were if they are looked up neither at the file nor through it. -/
theorem settings_again (h : Differs d d' loc) (hc : settings d a dir = .ok c)
    (hconfig : ∀ path, configPath d' a dir = .ok path →
      d'.locate path ≠ .ok loc ∧ d'.locate path ≠ .error .notDirectory) :
    settings d' a dir = .ok c := by
  obtain ⟨path, hpath, hload⟩ := bind_eq_ok hc
  have hpath' := configPath_again h hpath
  obtain ⟨hfile, hthrough⟩ := hconfig path hpath'
  have hsame : d'.locate path = d.locate path := by
    rcases locate_of_differs h path with hsame | ⟨-, hnew | hnew⟩
    · exact hsame
    · exact absurd hnew hfile
    · exact absurd hnew hthrough
  have hload' : ProjectConfig.load d' path = ProjectConfig.load d path := by
    unfold ProjectConfig.load
    rw [readText_of_differs h hsame hfile]
  rw [← hload'] at hload
  unfold settings
  rw [hpath']
  exact hload

theorem renders_again [Ignore.Engine] (h : Written d p content d' loc) {format : Format}
    (hrenders : Renders d dir c format text)
    (hfiles : ∀ paths, Selection.resolve d' c.patterns c.ignore dir = .ok paths →
      ∀ q ∈ paths, d'.locate q ≠ .ok loc) :
    Renders d' dir c format text := by
  cases hrenders with
  | json hnotes => exact .json (Project.notes_again h hnotes hfiles)
  | markdown hbuild =>
    refine .markdown ?_
    unfold Project.build at hbuild ⊢
    cases hnotes : Project.notes (.ofDisk d) c.render dir c.patterns c.ignore with
    | error failure =>
      rw [hnotes] at hbuild
      nomatch hbuild
    | ok notes =>
      rw [hnotes] at hbuild
      rw [Project.notes_again h hnotes hfiles]
      exact hbuild

end Command

end Written

namespace Command

/-! ### The second run -/

/-- A file is apart from what a run reads: it is neither the file with the settings nor one of the
files of the project. -/
structure Apart [Ignore.Engine] (disk : Disk) (a : Arguments) (p : Path) : Prop where
  config {dir path : Path} (hdir : directory disk a = .ok dir)
    (hpath : configPath disk a dir = .ok path) : ¬disk.SamePlace path p
  files {dir : Path} {c : ProjectConfig} {paths : List Path} (hdir : directory disk a = .ok dir)
    (hc : settings disk a dir = .ok c)
    (hpaths : Selection.resolve disk c.patterns c.ignore dir = .ok paths) :
    ∀ q ∈ paths, ¬disk.SamePlace q p

/-- The settings are not looked up beyond a file. -/
def ConfigInReach (disk : Disk) (a : Arguments) : Prop :=
  ∀ dir path, directory disk a = .ok dir → configPath disk a dir = .ok path →
    disk.locate path ≠ .error .notDirectory

/-- A run that succeeds has written its document. -/
theorem written_of_run [Ignore.Engine] {disk after : Disk} {filterText : Option String}
    {arguments : List String} {a : Arguments} {p : Path}
    (hparse : parse arguments = .ok (.document a))
    (houtput : a.output = some p) (hstatus : (run disk filterText arguments).status = 0)
    (hafter : (run disk filterText arguments).disk = after) :
    ∃ text, Makes disk a text ∧ disk.writeText p text = .ok after := by
  rcases run_of_document disk filterText hparse with
    ⟨delivery, hproduce, -, -, hdisk⟩ | ⟨fault, -, hfail, -, -⟩
  · obtain ⟨text, hmakes, hdeliver⟩ := produce_eq_ok_iff.mp hproduce
    rw [houtput] at hdeliver
    refine ⟨text, hmakes, ?_⟩
    rw [(writeText_of_deliver hdeliver).1, ← hafter, hdisk]
  · rw [hstatus] at hfail
    nomatch hfail

/-- **A second run changes nothing.**  After a run that has written its document to a file, a run
with the same arguments succeeds and leaves the disk as it is, provided that the file is apart from
what it reads. -/
theorem run_again [Ignore.Engine] {disk after : Disk} {filterText filterText' : Option String}
    {arguments : List String} {a : Arguments} {p : Path}
    (hparse : parse arguments = .ok (.document a)) (houtput : a.output = some p)
    (hstatus : (run disk filterText arguments).status = 0)
    (hafter : (run disk filterText arguments).disk = after) (hapart : Apart after a p)
    (hconfig : ConfigInReach after a) :
    (run after filterText' arguments).status = 0 ∧
      (run after filterText' arguments).disk = after := by
  obtain ⟨text, ⟨dir, c, hdir, hc, hrenders⟩, hwrite⟩ :=
    written_of_run hparse houtput hstatus hafter
  obtain ⟨loc, h⟩ := written_of_writeBytes hwrite
  have hplace : ∀ {q}, ¬after.SamePlace q p → after.locate q ≠ .ok loc :=
    fun happart hl => happart ⟨loc, hl, h.locate⟩
  -- The second run makes the same document from what it finds.
  have hdir' := directory_again h.differs hdir
  have hc' : settings after a dir = .ok c := settings_again h.differs hc fun path hpath =>
    ⟨hplace (hapart.config hdir' hpath), hconfig dir path hdir' hpath⟩
  have hrenders' : Renders after dir c (a.format.getD .markdown) text :=
    renders_again h hrenders fun paths hpaths q hq => hplace (hapart.files hdir' hc' hpaths q hq)
  have hproduce' : produce after a = .ok ⟨after, ""⟩ := by
    refine produce_eq_ok_iff.mpr ⟨text, ⟨dir, c, hdir', hc', hrenders'⟩, ?_⟩
    have hagain : after.writeText p text = .ok after := h.writeBytes_again hwrite
    rw [houtput]
    unfold deliver
    simp only [hagain]
  rcases run_of_document after filterText' hparse with
    ⟨delivery', hsecond, hstatus', -, hdisk'⟩ | ⟨fault, hsecond, -⟩
  · rw [hproduce'] at hsecond
    obtain rfl := Except.ok.inj hsecond
    exact ⟨hstatus', hdisk'⟩
  · rw [hproduce'] at hsecond
    nomatch hsecond

theorem apart_of_eq [Ignore.Engine] {disk : Disk} {a : Arguments} {p dir path : Path}
    {c : ProjectConfig} {paths : List Path} (hdir : directory disk a = .ok dir)
    (hpath : configPath disk a dir = .ok path) (hc : settings disk a dir = .ok c)
    (hpaths : Selection.resolve disk c.patterns c.ignore dir = .ok paths)
    (hconfig : ¬disk.SamePlace path p) (hfiles : ∀ q ∈ paths, ¬disk.SamePlace q p) :
    Apart disk a p where
  config hdir' hpath' := by
    obtain rfl := Except.ok.inj (hdir.symm.trans hdir')
    obtain rfl := Except.ok.inj (hpath.symm.trans hpath')
    exact hconfig
  files hdir' hc' hpaths' := by
    obtain rfl := Except.ok.inj (hdir.symm.trans hdir')
    obtain rfl := Except.ok.inj (hc.symm.trans hc')
    obtain rfl := Except.ok.inj (hpaths.symm.trans hpaths')
    exact hfiles

/-- A project with one file, whose document is to be written beside it. -/
def undocumented : Disk where
  root := .directory [("a.js", .file "// Architecture Note #1: T\n".toUTF8 false)] false

/-- The command line that asks for the document of a file in another file. -/
def intoFile : List String := ["--output", "out.md", "a.js"]

/-- What the command line says. -/
def intoFileGiven : Arguments where
  patterns := ["a.js"]
  output := some ⟨"out.md"⟩

/-- The document of a project is written beside its file, twice. -/
theorem run_again_beside_file :
    (run undocumented none intoFile).status = 0 ∧
      (run (run undocumented none intoFile).disk none intoFile).status = 0 ∧
      (run (run undocumented none intoFile).disk none intoFile).disk =
        (run undocumented none intoFile).disk := by
  have hstatus : (run undocumented none intoFile).status = 0 := by decide +kernel
  have hdir : directory (run undocumented none intoFile).disk intoFileGiven = .ok ⟨"/"⟩ := by
    decide +kernel
  have hpath : configPath (run undocumented none intoFile).disk intoFileGiven ⟨"/"⟩ =
      .ok ⟨"/archnotes.toml"⟩ := by decide +kernel
  have hc : settings (run undocumented none intoFile).disk intoFileGiven ⟨"/"⟩ =
      .ok { patterns := ["a.js"] } := by decide +kernel
  have hpaths : Selection.resolve (run undocumented none intoFile).disk ["a.js"]
      ["**/node_modules/**"] ⟨"/"⟩ = .ok [⟨"/a.js"⟩] := by decide +kernel
  refine ⟨hstatus, run_again (a := intoFileGiven) (by decide +kernel) rfl hstatus rfl
    (apart_of_eq hdir hpath hc hpaths (by decide +kernel) (by decide +kernel)) ?_⟩
  intro dir path hdir' hpath'
  obtain rfl := Except.ok.inj (hdir.symm.trans hdir')
  obtain rfl := Except.ok.inj (hpath.symm.trans hpath')
  decide +kernel

/-- A project whose settings are looked up beyond the place of the document. -/
def linkedBeyond : Disk where
  root := .directory [("a.js", .file "// Architecture Note #1: T\n".toUTF8 false),
    ("archnotes.toml", .link "out.md/x")] false

/-- The first run has no settings to read; the second one cannot look them up. -/
theorem run_again_fails :
    parse intoFile = .ok (.document intoFileGiven) ∧
      intoFileGiven.output = some ⟨"out.md"⟩ ∧
      (run linkedBeyond none intoFile).status = 0 ∧
      Apart (run linkedBeyond none intoFile).disk intoFileGiven ⟨"out.md"⟩ ∧
      (run (run linkedBeyond none intoFile).disk none intoFile).status = 1 := by
  have hdir : directory (run linkedBeyond none intoFile).disk intoFileGiven = .ok ⟨"/"⟩ := by
    decide +kernel
  have hpath : configPath (run linkedBeyond none intoFile).disk intoFileGiven ⟨"/"⟩ =
      .ok ⟨"/archnotes.toml"⟩ := by decide +kernel
  have hsettings : settings (run linkedBeyond none intoFile).disk intoFileGiven ⟨"/"⟩ =
      .error (.config ⟨"/archnotes.toml"⟩ (.unreadable ⟨"/archnotes.toml"⟩ .notDirectory)) := by
    decide +kernel
  refine ⟨by decide +kernel, rfl, by decide +kernel, ⟨?_, ?_⟩, by decide +kernel⟩
  · intro dir path hdir' hpath'
    obtain rfl := Except.ok.inj (hdir.symm.trans hdir')
    obtain rfl := Except.ok.inj (hpath.symm.trans hpath')
    decide +kernel
  · intro dir c paths hdir' hc
    obtain rfl := Except.ok.inj (hdir.symm.trans hdir')
    rw [hsettings] at hc
    nomatch hc

end Command

end CodeNotes
