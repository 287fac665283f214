import CodeNotes.Project.Build
import CodeNotes.Proofs.Note.Order
import CodeNotes.Proofs.Project.Collect
import CodeNotes.Proofs.Source.Embedding

/-!
# The order in which files are found

A project whose files are found in another order has the same notes and the same document, as long
as no id stands in two files.  Every note carries the path of its file
(`Source.path_of_mem_extract`), so the notes of an id all come from one file; the permutation moves
them only as a block, past blocks that have no note of that id (`filter_flatMap_of_perm`), and the
sort keeps the order within an id (`sort_flatMap_of_perm`).
-/

namespace CodeNotes

theorem Source.path_of_mem_extract {path : Path} {source : String} {notes : List Note}
    (h : extract path source = .ok notes) {n : Note} (hn : n ∈ notes) : n.path = path := by
  unfold extract at h
  cases hcomments : commentsOfFile path source with
  | error fault =>
    rw [hcomments] at h
    nomatch h
  | ok comments =>
    rw [hcomments] at h
    obtain rfl := Except.ok.inj h
    obtain ⟨c, -, hc⟩ := List.mem_filterMap.mp hn
    obtain ⟨f, -, rfl⟩ := Option.map_eq_some_iff.mp hc
    rfl

namespace Project

variable {files : FileSource}

/-! ### The notes of a file, without its failures -/

/-- The notes of a file, or none at all if it fails. -/
def notesIn (files : FileSource) (path : Path) : List Note :=
  match notesOfFile files path with
  | .ok notes => notes
  | .error _ => []

theorem notesIn_of_yields {path : Path} {notes : List Note} (h : files.Yields path notes) :
    notesIn files path = notes := by
  unfold notesIn
  rw [notesOfFile_eq_ok_iff.mpr h]

theorem path_of_mem_notesIn {path : Path} {n : Note} (hn : n ∈ notesIn files path) :
    n.path = path := by
  unfold notesIn at hn
  cases hfile : notesOfFile files path with
  | error failure =>
    rw [hfile] at hn
    nomatch hn
  | ok notes =>
    rw [hfile] at hn
    obtain ⟨source, -, hextract⟩ := notesOfFile_eq_ok_iff.mp hfile
    exact Source.path_of_mem_extract hextract hn

theorem forall₂_yields_iff {paths : List Path} {parts : List (List Note)} :
    List.Forall₂ files.Yields paths parts ↔
      (∀ path ∈ paths, ∃ notes, files.Yields path notes) ∧ parts = paths.map (notesIn files) := by
  induction paths generalizing parts with
  | nil => simp
  | cons path paths ih =>
    rw [List.forall₂_cons_left_iff, List.forall_mem_cons, List.map_cons]
    constructor
    · rintro ⟨notes, rest, hnotes, hrest, rfl⟩
      obtain ⟨hyields, rfl⟩ := ih.mp hrest
      rw [notesIn_of_yields hnotes]
      exact ⟨⟨⟨notes, hnotes⟩, hyields⟩, rfl⟩
    · rintro ⟨⟨⟨notes, hnotes⟩, hyields⟩, rfl⟩
      rw [notesIn_of_yields hnotes]
      exact ⟨notes, _, hnotes, ih.mpr ⟨hyields, rfl⟩, rfl⟩

variable {options : RenderOptions} {dir : Path} {patterns ignore : List String}

theorem collect_eq_ok_iff_flatMap {paths : List Path}
    (h : files.resolve patterns ignore dir = .ok paths) {notes : List Note} :
    collect files dir patterns ignore = .ok notes ↔
      (∀ path ∈ paths, ∃ notes, files.Yields path notes) ∧
        notes = paths.flatMap (notesIn files) := by
  rw [collect_eq_ok_iff h, List.flatMap_def]
  simp only [forall₂_yields_iff]
  constructor
  · rintro ⟨parts, ⟨hyields, rfl⟩, rfl⟩
    exact ⟨hyields, rfl⟩
  · rintro ⟨hyields, rfl⟩
    exact ⟨_, ⟨hyields, rfl⟩, rfl⟩

theorem notes_eq_ok_iff {sorted : List Note} :
    notes files options dir patterns ignore = .ok sorted ↔ checkOptions options = .ok () ∧
      ∃ found, collect files dir patterns ignore = .ok found ∧ sorted = Note.sort found := by
  unfold notes
  cases checkOptions options with
  | error failure => simp [Except.bind]
  | ok _ =>
    cases collect files dir patterns ignore <;> simp [Except.bind, Except.map, eq_comm]

theorem build_of_notes_ok {sorted : List Note}
    (h : notes files options dir patterns ignore = .ok sorted) :
    build files options dir patterns ignore = .ok (Document.render options dir sorted) := by
  rw [build, h]
  rfl

theorem exists_build_iff :
    (∃ text, build files options dir patterns ignore = .ok text) ↔
      ∃ sorted, notes files options dir patterns ignore = .ok sorted := by
  constructor
  · rintro ⟨text, h⟩
    unfold build at h
    cases hnotes : notes files options dir patterns ignore with
    | error failure =>
      rw [hnotes] at h
      nomatch h
    | ok sorted => exact ⟨sorted, rfl⟩
  · rintro ⟨sorted, h⟩
    exact ⟨_, build_of_notes_ok h⟩

/-! ### Permutations -/

/-- If of any two files only one has what a test lets through, the test lets the same through
whatever the order of the files. -/
theorem filter_flatMap_of_perm {test : Note → Bool} {notesOf : Path → List Note}
    {paths paths' : List Path} (hperm : paths.Perm paths')
    (h : ∀ p ∈ paths, ∀ q ∈ paths, p ≠ q →
      (notesOf p).filter test = [] ∨ (notesOf q).filter test = []) :
    (paths.flatMap notesOf).filter test = (paths'.flatMap notesOf).filter test := by
  induction hperm with
  | nil => rfl
  | cons p _ ih =>
    have htail := ih fun q hq r hr =>
      h q (List.mem_cons_of_mem p hq) r (List.mem_cons_of_mem p hr)
    rw [List.flatMap_cons, List.flatMap_cons, List.filter_append, List.filter_append, htail]
  | swap p q paths =>
    simp only [List.flatMap_cons, List.filter_append, ← List.append_assoc]
    congr 1
    by_cases hpq : p = q
    · rw [hpq]
    · rcases h p (by simp) q (by simp) hpq with hnil | hnil <;> simp [hnil]
  | trans hfirst _ ih ih' =>
    rw [ih h]
    refine ih' fun p hp q hq => ?_
    exact h p (hfirst.mem_iff.mpr hp) q (hfirst.mem_iff.mpr hq)

theorem notesOfFile_congr {files₁ files₂ : FileSource}
    (h : ∀ path, files₁.read path = files₂.read path) :
    notesOfFile files₁ = notesOfFile files₂ := by
  funext path
  unfold notesOfFile
  rw [h path]

theorem notesIn_congr {files₁ files₂ : FileSource}
    (h : ∀ path, files₁.read path = files₂.read path) : notesIn files₁ = notesIn files₂ := by
  funext path
  unfold notesIn
  rw [notesOfFile_congr h]

theorem yields_congr {files₁ files₂ : FileSource}
    (h : ∀ path, files₁.read path = files₂.read path) {path : Path} {notes : List Note} :
    files₁.Yields path notes ↔ files₂.Yields path notes := by
  rw [← notesOfFile_eq_ok_iff, ← notesOfFile_eq_ok_iff, notesOfFile_congr h]

/-- If no id stands in two files, at most one of two files has notes of a given id. -/
theorem filter_notesIn_eq_nil {p q : Path} {id : NoteId} (hne : p ≠ q)
    (h : ∀ m ∈ notesIn files p, ∀ n ∈ notesIn files q, m.id = n.id → m.path = n.path) :
    (notesIn files p).filter (·.id = id) = [] ∨ (notesIn files q).filter (·.id = id) = [] := by
  by_contra hboth
  rw [not_or] at hboth
  obtain ⟨m, hm⟩ := List.exists_mem_of_ne_nil _ hboth.1
  obtain ⟨n, hn⟩ := List.exists_mem_of_ne_nil _ hboth.2
  obtain ⟨hm, hmid⟩ := List.mem_filter.mp hm
  obtain ⟨hn, hnid⟩ := List.mem_filter.mp hn
  have hid : m.id = n.id := (of_decide_eq_true hmid).trans (of_decide_eq_true hnid).symm
  have hpath := h m hm n hn hid
  rw [path_of_mem_notesIn hm, path_of_mem_notesIn hn] at hpath
  exact hne hpath

/-- Files found in another order are sorted into the same notes. -/
theorem sort_flatMap_of_perm {paths paths' : List Path} (hperm : paths.Perm paths')
    (h : ∀ m ∈ paths.flatMap (notesIn files), ∀ n ∈ paths.flatMap (notesIn files),
      m.id = n.id → m.path = n.path) :
    Note.sort (paths.flatMap (notesIn files)) = Note.sort (paths'.flatMap (notesIn files)) := by
  refine Note.sort_eq_sort fun id => filter_flatMap_of_perm hperm fun p hp q hq hne => ?_
  refine filter_notesIn_eq_nil hne fun m hm n hn => ?_
  exact h m (List.mem_flatMap_of_mem hp hm) n (List.mem_flatMap_of_mem hq hn)

/-- **The order in which files are found does not show.**  Where two projects have the same files,
listed in different orders, both documents can be built or none can; and if no id stands in two
files, the notes are the same, in the same order, and so are the documents. -/
theorem build_of_perm_paths {files₁ files₂ : FileSource} {paths₁ paths₂ : List Path}
    (hread : ∀ path, files₁.read path = files₂.read path)
    (hresolve₁ : files₁.resolve patterns ignore dir = .ok paths₁)
    (hresolve₂ : files₂.resolve patterns ignore dir = .ok paths₂) (hperm : paths₁.Perm paths₂) :
    ((∃ text, build files₁ options dir patterns ignore = .ok text) ↔
      ∃ text, build files₂ options dir patterns ignore = .ok text) ∧
    ∀ sorted, notes files₁ options dir patterns ignore = .ok sorted →
      (∀ m ∈ sorted, ∀ n ∈ sorted, m.id = n.id → m.path = n.path) →
      notes files₂ options dir patterns ignore = .ok sorted ∧
      ∃ text, build files₁ options dir patterns ignore = .ok text ∧
        build files₂ options dir patterns ignore = .ok text := by
  have hyields : (∀ path ∈ paths₁, ∃ notes, files₁.Yields path notes) ↔
      ∀ path ∈ paths₂, ∃ notes, files₂.Yields path notes := by
    simp only [hperm.mem_iff, yields_congr hread]
  refine ⟨?_, ?_⟩
  · simp only [exists_build_iff, notes_eq_ok_iff, collect_eq_ok_iff_flatMap hresolve₁,
      collect_eq_ok_iff_flatMap hresolve₂, hyields]
    constructor
    · rintro ⟨_, hoptions, _, ⟨hall, -⟩, -⟩
      exact ⟨_, hoptions, _, ⟨hall, rfl⟩, rfl⟩
    · rintro ⟨_, hoptions, _, ⟨hall, -⟩, -⟩
      exact ⟨_, hoptions, _, ⟨hall, rfl⟩, rfl⟩
  · intro sorted hsorted hids
    obtain ⟨hoptions, found, hfound, rfl⟩ := notes_eq_ok_iff.mp hsorted
    obtain ⟨hall, rfl⟩ := (collect_eq_ok_iff_flatMap hresolve₁).mp hfound
    have hnotes₂ : notes files₂ options dir patterns ignore
        = .ok (Note.sort (paths₁.flatMap (notesIn files₁))) := by
      refine notes_eq_ok_iff.mpr ⟨hoptions, paths₂.flatMap (notesIn files₂), ?_, ?_⟩
      · exact (collect_eq_ok_iff_flatMap hresolve₂).mpr ⟨hyields.mp hall, rfl⟩
      · rw [← notesIn_congr hread]
        refine sort_flatMap_of_perm hperm fun m hm n hn => ?_
        exact hids m ((Note.sort_perm _).mem_iff.mpr hm) n ((Note.sort_perm _).mem_iff.mpr hn)
    exact ⟨hnotes₂, _, build_of_notes_ok hsorted, build_of_notes_ok hnotes₂⟩

/-! ### Ids that repeat in a file that is listed twice -/

/-- Two notes of one id. -/
def twice : List Fragment :=
  [⟨⟨[2], by decide, by decide⟩, "First", ""⟩, ⟨⟨[2], by decide, by decide⟩, "Second", ""⟩]

def once : List Fragment :=
  [⟨⟨[1], by decide, by decide⟩, "Only", ""⟩]

/-- Two files, one of which has two notes of one id, in a given order. -/
def listed (paths : List Path) : FileSource where
  resolve _ _ _ := .ok paths
  journal _ _ _ := []
  read path :=
    .ok (Source.embed (Source.lineComment "//") (if path = ⟨"a.rs"⟩ then twice else once))

/-- The notes of the two files, one of them listed twice. -/
def listedNotes : List Note :=
  (once.mapIdx fun k f => f.at ⟨"b.rs"⟩ ⟨k + 1, k + 1⟩) ++
    (twice.mapIdx fun k f => f.at ⟨"a.rs"⟩ ⟨k + 1, k + 1⟩) ++
    (twice.mapIdx fun k f => f.at ⟨"a.rs"⟩ ⟨k + 1, k + 1⟩)

theorem build_of_perm_listed :
    notes (listed [⟨"b.rs"⟩, ⟨"a.rs"⟩, ⟨"a.rs"⟩]) {} ⟨"/repo"⟩ ["*.rs"] [] = .ok listedNotes ∧
    ∃ text, build (listed [⟨"a.rs"⟩, ⟨"b.rs"⟩, ⟨"a.rs"⟩]) {} ⟨"/repo"⟩ ["*.rs"] [] = .ok text ∧
      build (listed [⟨"b.rs"⟩, ⟨"a.rs"⟩, ⟨"a.rs"⟩]) {} ⟨"/repo"⟩ ["*.rs"] [] = .ok text := by
  have hnotes : notes (listed [⟨"a.rs"⟩, ⟨"b.rs"⟩, ⟨"a.rs"⟩]) {} ⟨"/repo"⟩ ["*.rs"] []
      = .ok listedNotes := by
    have ha : (listed [⟨"a.rs"⟩, ⟨"b.rs"⟩, ⟨"a.rs"⟩]).Yields ⟨"a.rs"⟩
        (twice.mapIdx fun k f => f.at ⟨"a.rs"⟩ ⟨k + 1, k + 1⟩) :=
      ⟨_, rfl, Source.extract_embed_lineComment_rust (by decide) (by decide) (by decide)⟩
    have hb : (listed [⟨"a.rs"⟩, ⟨"b.rs"⟩, ⟨"a.rs"⟩]).Yields ⟨"b.rs"⟩
        (once.mapIdx fun k f => f.at ⟨"b.rs"⟩ ⟨k + 1, k + 1⟩) :=
      ⟨_, rfl, Source.extract_embed_lineComment_rust (by decide) (by decide) (by decide)⟩
    have hcollect : collect (listed [⟨"a.rs"⟩, ⟨"b.rs"⟩, ⟨"a.rs"⟩]) ⟨"/repo"⟩ ["*.rs"] [] = .ok _ :=
      (collect_eq_ok_iff rfl).mpr ⟨_, .cons ha (.cons hb (.cons ha .nil)), rfl⟩
    refine notes_eq_ok_iff.mpr ⟨by decide, _, hcollect, ?_⟩
    cbv
  have hread : ∀ path, (listed [⟨"a.rs"⟩, ⟨"b.rs"⟩, ⟨"a.rs"⟩]).read path
      = (listed [⟨"b.rs"⟩, ⟨"a.rs"⟩, ⟨"a.rs"⟩]).read path := fun _ => rfl
  have hresolve : ∀ paths, (listed paths).resolve ["*.rs"] [] ⟨"/repo"⟩ = .ok paths := fun _ => rfl
  have hperm : ([⟨"a.rs"⟩, ⟨"b.rs"⟩, ⟨"a.rs"⟩] : List Path).Perm
      [⟨"b.rs"⟩, ⟨"a.rs"⟩, ⟨"a.rs"⟩] := by decide
  have hids : ∀ m ∈ listedNotes, ∀ n ∈ listedNotes, m.id = n.id → m.path = n.path := by decide
  exact (build_of_perm_paths hread (hresolve _) (hresolve _) hperm).2 listedNotes hnotes hids

end Project

end CodeNotes
