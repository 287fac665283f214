import CodeNotes.Project.Collect
import Mathlib.Data.List.Forall2

/-!
# What collecting notes comes to

A file either yields notes or fails, and what it fails with says whether it could not be read or
could not be parsed (`notesOfFile_eq_ok_iff`, `notesOfFile_eq_error_iff`).  Once the list of files is
resolved, a collection succeeds iff every file yields notes, and then its notes are theirs, file by
file (`collect_eq_ok_iff`); else it fails with the first file of the list that fails
(`collect_eq_error_iff`).
-/

namespace CodeNotes

/-! ### A single file -/

/-- The file can be read, and these are the notes in its text. -/
def FileSource.Yields (files : FileSource) (path : Path) (notes : List Note) : Prop :=
  ∃ source, files.read path = .ok source ∧ Source.extract path source = .ok notes

/-- The file has no notes to give, for the reason told by the failure. -/
inductive FileSource.FailsWith (files : FileSource) (path : Path) : Failure → Prop
  | unreadable {fault : ReadFault} (hread : files.read path = .error fault) :
      FailsWith files path (.file path fault)
  | malformed {source : String} {fault : Source.Fault} (hread : files.read path = .ok source)
      (hextract : Source.extract path source = .error fault) :
      FailsWith files path (.parse path fault)

namespace Project

variable {files : FileSource}

theorem notesOfFile_eq_ok_iff {path : Path} {notes : List Note} :
    notesOfFile files path = .ok notes ↔ files.Yields path notes := by
  unfold notesOfFile FileSource.Yields
  cases hread : files.read path with
  | error fault => simp
  | ok source => cases hextract : Source.extract path source <;> simp [hextract]

theorem notesOfFile_eq_error_iff {path : Path} {failure : Failure} :
    notesOfFile files path = .error failure ↔ files.FailsWith path failure := by
  constructor
  · intro h
    unfold notesOfFile at h
    cases hread : files.read path with
    | error fault =>
      rw [hread] at h
      obtain rfl := Except.error.inj h
      exact .unreadable hread
    | ok source =>
      cases hextract : Source.extract path source with
      | error fault =>
        simp only [hread, hextract] at h
        obtain rfl := Except.error.inj h
        exact .malformed hread hextract
      | ok notes =>
        simp only [hread, hextract] at h
        nomatch h
  · intro h
    unfold notesOfFile
    cases h with
    | unreadable hread => simp only [hread]
    | malformed hread hextract => simp only [hread, hextract]

/-! ### A list of files -/

section Traversal

variable {α β ε : Type} {f : α → Except ε β} {l : List α}

/-- A traversal succeeds iff it does at every entry. -/
theorem mapM_eq_ok_iff {bs : List β} :
    l.mapM f = .ok bs ↔ List.Forall₂ (fun a b => f a = .ok b) l bs := by
  induction l generalizing bs with
  | nil =>
    rw [List.mapM_nil, List.forall₂_nil_left_iff]
    exact ⟨fun h => (Except.ok.inj h).symm, fun h => congrArg Except.ok h.symm⟩
  | cons a l ih =>
    rw [List.mapM_cons, List.forall₂_cons_left_iff]
    simp only [← ih]
    cases ha : f a with
    | error e => simp [bind, Except.bind]
    | ok b => cases hl : l.mapM f <;> simp [bind, Except.bind, pure, Except.pure, eq_comm]

/-- A traversal fails iff it does at an entry that no failing one stands before. -/
theorem mapM_eq_error_iff {e : ε} :
    l.mapM f = .error e ↔ ∃ before a after, l = before ++ a :: after ∧
      (∀ x ∈ before, ∃ b, f x = .ok b) ∧ f a = .error e := by
  induction l with
  | nil => simp [pure, Except.pure]
  | cons a l ih =>
    rw [List.mapM_cons]
    cases ha : f a with
    | error e' =>
      constructor
      · intro h
        obtain rfl := Except.error.inj h
        exact ⟨[], a, l, rfl, nofun, ha⟩
      · rintro ⟨before, x, after, hl, hbefore, hx⟩
        cases before with
        | nil =>
          obtain ⟨rfl, -⟩ := List.cons.inj hl
          exact congrArg Except.error (Except.error.inj (ha.symm.trans hx))
        | cons y before =>
          obtain ⟨rfl, -⟩ := List.cons.inj hl
          obtain ⟨b, hb⟩ := hbefore a List.mem_cons_self
          rw [ha] at hb
          nomatch hb
    | ok b =>
      have htail : (Except.ok b >>= fun b => l.mapM f >>= fun bs => pure (b :: bs)) =
          (.error e : Except ε (List β)) ↔ l.mapM f = .error e := by
        cases l.mapM f <;> simp [bind, Except.bind, pure, Except.pure]
      rw [htail, ih]
      constructor
      · rintro ⟨before, x, after, rfl, hbefore, hx⟩
        exact ⟨a :: before, x, after, rfl, List.forall_mem_cons.mpr ⟨⟨b, ha⟩, hbefore⟩, hx⟩
      · rintro ⟨before, x, after, hl, hbefore, hx⟩
        cases before with
        | nil =>
          obtain ⟨rfl, -⟩ := List.cons.inj hl
          rw [ha] at hx
          nomatch hx
        | cons y before =>
          obtain ⟨rfl, rfl⟩ := List.cons.inj hl
          exact ⟨before, x, after, rfl, (List.forall_mem_cons.mp hbefore).2, hx⟩

end Traversal

variable {dir : Path} {patterns ignore : List String}

theorem collect_of_resolve_ok {paths : List Path}
    (h : files.resolve patterns ignore dir = .ok paths) :
    collect files dir patterns ignore = (paths.mapM (notesOfFile files)).map List.flatten := by
  rw [collect, h]
  rfl

theorem collect_of_resolve_error {failure : Failure}
    (h : files.resolve patterns ignore dir = .error failure) :
    collect files dir patterns ignore = .error failure := by
  rw [collect, h]
  rfl

theorem mapM_notesOfFile_eq_ok_iff {paths : List Path} {parts : List (List Note)} :
    paths.mapM (notesOfFile files) = .ok parts ↔ List.Forall₂ files.Yields paths parts := by
  rw [mapM_eq_ok_iff]
  simp only [notesOfFile_eq_ok_iff]

/-- **A collection succeeds iff every file does.**  The notes are then those of the files, in the
order of the resolved list, and an entry of the list gives its notes once. -/
theorem collect_eq_ok_iff {paths : List Path} (h : files.resolve patterns ignore dir = .ok paths)
    {notes : List Note} :
    collect files dir patterns ignore = .ok notes ↔
      ∃ parts, List.Forall₂ files.Yields paths parts ∧ notes = parts.flatten := by
  rw [collect_of_resolve_ok h]
  simp only [← mapM_notesOfFile_eq_ok_iff]
  cases paths.mapM (notesOfFile files) <;> simp [Except.map, eq_comm]

/-- **A collection fails with the first file that does.** -/
theorem collect_eq_error_iff {paths : List Path}
    (h : files.resolve patterns ignore dir = .ok paths) {failure : Failure} :
    collect files dir patterns ignore = .error failure ↔
      ∃ before path after, paths = before ++ path :: after ∧
        (∀ p ∈ before, ∃ notes, files.Yields p notes) ∧ files.FailsWith path failure := by
  rw [collect_of_resolve_ok h]
  simp only [← notesOfFile_eq_ok_iff, ← notesOfFile_eq_error_iff, ← mapM_eq_error_iff]
  cases paths.mapM (notesOfFile files) <;> simp [Except.map]

end Project

end CodeNotes
