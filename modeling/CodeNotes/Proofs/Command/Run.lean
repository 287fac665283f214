import CodeNotes.Command.Run
import CodeNotes.Proofs.Disk.Change

/-!
# What a run leaves behind

A run that succeeds has made a document from the disk as it found it (`Makes`), and has either
printed it or written it to one file (`Delivers`); a run that fails has done neither.  So what is
printed and what is on the disk afterwards is decided by the document alone (`run_atomic`).
-/

namespace CodeNotes.Command

open Disk

variable {disk : Disk} {a : Arguments} {text : String}

/-! ### Making -/

/-- The document in a form is what the project comes to: its text, or its notes as data. -/
inductive Renders [Ignore.Engine] (disk : Disk) (dir : Path) (c : ProjectConfig) :
    Format → String → Prop
  | markdown {text : String}
      (hbuild : Project.build (.ofDisk disk) c.render dir c.patterns c.ignore = .ok text) :
      Renders disk dir c .markdown text
  | json {notes : List Note}
      (hnotes : Project.notes (.ofDisk disk) c.render dir c.patterns c.ignore = .ok notes) :
      Renders disk dir c .json (Document.json notes)

/-- The document that arguments ask for, made from a disk. -/
def Makes [Ignore.Engine] (disk : Disk) (a : Arguments) (text : String) : Prop :=
  ∃ dir c, directory disk a = .ok dir ∧ settings disk a dir = .ok c ∧
    Renders disk dir c (a.format.getD .markdown) text

theorem document_eq_ok_iff [Ignore.Engine] {format : Format} {dir : Path} {c : ProjectConfig} :
    document disk format dir c = .ok text ↔ Renders disk dir c format text := by
  constructor
  · intro h
    cases format with
    | markdown => exact .markdown h
    | json =>
      unfold document at h
      cases hnotes : Project.notes (.ofDisk disk) c.render dir c.patterns c.ignore with
      | error failure =>
        simp only [hnotes, Except.map] at h
        nomatch h
      | ok notes =>
        simp only [hnotes, Except.map] at h
        obtain rfl := Except.ok.inj h
        exact .json hnotes
  · intro h
    unfold document
    cases h with
    | markdown hbuild => exact hbuild
    | json hnotes => simp only [hnotes, Except.map]

theorem make_eq_ok_iff [Ignore.Engine] : make disk a = .ok text ↔ Makes disk a text := by
  constructor
  · intro h
    obtain ⟨dir, hdir, h⟩ := bind_eq_ok h
    obtain ⟨c, hc, h⟩ := bind_eq_ok h
    refine ⟨dir, c, hdir, hc, document_eq_ok_iff.mp ?_⟩
    split at h
    · next htext => rw [htext, Except.ok.inj h]
    · nomatch h
  · rintro ⟨dir, c, hdir, hc, h⟩
    simp only [make, hdir, hc, document_eq_ok_iff.mpr h, Except.bind]

/-! ### Delivering -/

/-- A document has been printed, or written where the output path leads; nothing else is printed and
no other place of the disk has changed. -/
inductive Delivers (disk : Disk) (text : String) : Option Path → Delivery → Prop
  | printed : Delivers disk text none ⟨disk, text⟩
  | written {p : Path} {disk' : Disk} {l : Location} {present : Bool}
      (harrive : disk.arrive true p = .ok ⟨l, present⟩) (hlocate : disk'.locate p = .ok l)
      (hread : disk'.readBytes p = .ok text.toUTF8)
      (hother : ∀ m ≠ l, disk'.root.kindAt m = disk.root.kindAt m) (hhere : disk'.here = disk.here) :
      Delivers disk text (some p) ⟨disk', ""⟩

theorem writeText_of_deliver {p : Path} {delivery : Delivery}
    (h : deliver disk (some p) text = .ok delivery) :
    disk.writeText p text = .ok delivery.disk ∧ delivery.stdout = "" := by
  unfold deliver at h
  dsimp only at h
  split at h
  · next disk' hwrite =>
    obtain rfl := Except.ok.inj h
    exact ⟨hwrite, rfl⟩
  · nomatch h

theorem delivers_of_deliver {output : Option Path} {delivery : Delivery}
    (h : deliver disk output text = .ok delivery) : Delivers disk text output delivery := by
  cases output with
  | none =>
    obtain rfl := Except.ok.inj h
    exact .printed
  | some p =>
    obtain ⟨disk', stdout⟩ := delivery
    obtain ⟨hwrite, rfl⟩ := writeText_of_deliver h
    obtain ⟨l, hwritten⟩ := written_of_writeBytes hwrite
    exact .written hwritten.arrive hwritten.locate hwritten.readBytes hwritten.differs.other
      hwritten.here

/-! ### Running -/

theorem run_of_document [Ignore.Engine] (disk : Disk) (filterText : Option String)
    {arguments : List String} (h : parse arguments = .ok (.document a)) :
    (∃ delivery, produce disk a = .ok delivery ∧ (run disk filterText arguments).status = 0 ∧
        (run disk filterText arguments).stdout = delivery.stdout ∧
        (run disk filterText arguments).disk = delivery.disk) ∨
      ∃ fault, produce disk a = .error fault ∧ (run disk filterText arguments).status = 1 ∧
        (run disk filterText arguments).stdout = "" ∧
        (run disk filterText arguments).disk = disk := by
  unfold run
  rw [h]
  dsimp only
  cases produce disk a with
  | ok delivery => exact .inl ⟨delivery, rfl, rfl, rfl, rfl⟩
  | error fault => exact .inr ⟨fault, rfl, rfl, rfl, rfl⟩

theorem produce_eq_ok_iff [Ignore.Engine] {delivery : Delivery} :
    produce disk a = .ok delivery ↔
      ∃ text, Makes disk a text ∧ deliver disk a.output text = .ok delivery := by
  constructor
  · intro h
    obtain ⟨text, hmake, hdeliver⟩ := bind_eq_ok h
    exact ⟨text, make_eq_ok_iff.mp hmake, hdeliver⟩
  · rintro ⟨text, hmakes, hdeliver⟩
    rw [produce, make_eq_ok_iff.mpr hmakes]
    exact hdeliver

/-- **A run delivers the whole document or nothing.**  One that fails prints nothing and leaves the
disk as it was; one that succeeds has made the document from the disk as it was and has delivered it.
-/
theorem run_atomic [Ignore.Engine] (disk : Disk) (filterText : Option String)
    (arguments : List String)
    (hrequest : ∀ r, parse arguments ≠ .ok (.request r)) :
    ((run disk filterText arguments).status ≠ 0 →
      (run disk filterText arguments).stdout = "" ∧ (run disk filterText arguments).disk = disk) ∧
    ((run disk filterText arguments).status = 0 →
      ∃ a text, parse arguments = .ok (.document a) ∧ Makes disk a text ∧
        Delivers disk text a.output
          ⟨(run disk filterText arguments).disk, (run disk filterText arguments).stdout⟩) := by
  cases hparse : parse arguments with
  | error m =>
    unfold run
    simp [hparse]
  | ok order =>
    cases order with
    | request r => exact absurd hparse (hrequest r)
    | document a =>
      rcases run_of_document disk filterText hparse with
        ⟨delivery, hproduce, hstatus, hstdout, hdisk⟩ | ⟨fault, hproduce, hstatus, hstdout, hdisk⟩
      · refine ⟨fun hfail => absurd hstatus hfail, fun _ => ?_⟩
        obtain ⟨text, hmakes, hdeliver⟩ := produce_eq_ok_iff.mp hproduce
        rw [hdisk, hstdout]
        exact ⟨a, text, rfl, hmakes, delivers_of_deliver hdeliver⟩
      · refine ⟨fun _ => ⟨hstdout, hdisk⟩, fun hok => ?_⟩
        rw [hstatus] at hok
        nomatch hok

/-- A project with a note and an older document. -/
def documented : Disk where
  root := .directory [("a.js", .file "// Architecture Note #1: T\n".toUTF8 false),
    ("out.md", .file "old".toUTF8 false)] false

/-- The older document is replaced as a whole, or kept if a pattern is not well formed. -/
theorem run_over_older_document :
    ((run documented none ["--output", "out.md", "a.js"]).status = 0 ∧
      ∃ a text, parse ["--output", "out.md", "a.js"] = .ok (.document a) ∧ Makes documented a text ∧
        Delivers documented text a.output
          ⟨(run documented none ["--output", "out.md", "a.js"]).disk,
            (run documented none ["--output", "out.md", "a.js"]).stdout⟩) ∧
    (run documented none ["--output", "out.md", "a.js", "["]).status = 1 ∧
      (run documented none ["--output", "out.md", "a.js", "["]).stdout = "" ∧
      (run documented none ["--output", "out.md", "a.js", "["]).disk = documented := by
  have hstatus : (run documented none ["--output", "out.md", "a.js"]).status = 0 := by
    decide +kernel
  have hfails : (run documented none ["--output", "out.md", "a.js", "["]).status = 1 := by
    decide +kernel
  refine ⟨⟨hstatus, (run_atomic documented none ["--output", "out.md", "a.js"] ?_).2 hstatus⟩,
    hfails, (run_atomic documented none ["--output", "out.md", "a.js", "["] ?_).1 ?_⟩
  · intro r
    cases r <;> decide +kernel
  · intro r
    cases r <;> decide +kernel
  · rw [hfails]
    exact Nat.one_ne_zero

end CodeNotes.Command
