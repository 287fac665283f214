import CodeNotes.Proofs.Project.Collect
import Mathlib.Algebra.GroupWithZero.Nat
import Mathlib.Logic.Relation

/-!
# Collecting with many files under way

The files of a project are read side by side: once the list is resolved every entry gets a task, the
tasks go on in any order, and a joiner waits for all of them.  `Collection.Step` has one rule for
each thing that can happen next, so a run is any order of events.

Every state that a run reaches keeps `Collection.Invariant` (`Collection.Reached.invariant`): tasks
stand in the order of the list, and what a task has come to is what its file comes to alone.  So the
order of events decides neither whether a collection succeeds nor what notes it gives; it can only
decide which of several failing files is named.  Every run ends, and only with a result
(`Collection.wellFounded_step`, `Collection.exists_step`).
-/

namespace CodeNotes

/-! ### Waiting for several outcomes -/

/-- A way to wait for tasks.  It looks at the outcomes there are by then, one place for each task,
and either has a result or goes on waiting. -/
structure Joiner (ε α : Type) where
  look : List (Option (Except ε α)) → Option (Except ε (List α))
  /-- Only when all tasks have succeeded is there a success: their outputs, in the given order. -/
  look_ok : ∀ {l outputs}, look l = some (.ok outputs) → l = outputs.map fun a => some (.ok a)
  /-- A failure is that of a task, and no task before it is known to have failed. -/
  look_error : ∀ {l e}, look l = some (.error e) →
    ∃ before after, l = before ++ some (.error e) :: after ∧ ∀ e', some (.error e') ∉ before
  /-- There is no more waiting once every task has an outcome. -/
  look_settled : ∀ {l}, none ∉ l → (look l).isSome

namespace Joiner

variable {ε α : Type}

/-- **The first failure that is known is the result.** -/
theorem eq_error_of_look (join : Joiner ε α) {before after : List (Option (Except ε α))} {e : ε}
    (hbefore : ∀ e', some (.error e') ∉ before) {outcome : Except ε (List α)}
    (h : join.look (before ++ some (.error e) :: after) = some outcome) : outcome = .error e := by
  cases outcome with
  | ok outputs =>
    have hall := join.look_ok h
    have hmem : some (.error e) ∈ outputs.map fun a => some (Except.ok a) := by
      rw [← hall]
      exact List.mem_append_right before List.mem_cons_self
    obtain ⟨a, -, ha⟩ := List.mem_map.mp hmem
    nomatch ha
  | error e' =>
    obtain ⟨known, rest, hsplit, hknown⟩ := join.look_error h
    -- Neither of the two failures can stand before the other.
    obtain ⟨c, rfl, hc⟩ | ⟨c, rfl, hc⟩ := List.append_eq_append_iff.mp hsplit
    · cases c with
      | nil => exact congrArg Except.error (by simpa using (List.cons.inj hc).1.symm)
      | cons x c =>
        obtain ⟨rfl, -⟩ := List.cons.inj hc
        exact absurd (List.mem_append_right before List.mem_cons_self) (hknown e)
    · cases c with
      | nil => exact congrArg Except.error (by simpa using (List.cons.inj hc).1)
      | cons x c =>
        obtain ⟨rfl, -⟩ := List.cons.inj hc
        exact absurd (List.mem_append_right known List.mem_cons_self) (hbefore e')

/-- Looks through the outcomes from first to last for a failure. -/
def lookEagerly : List (Option (Except ε α)) → Option (Except ε (List α))
  | [] => some (.ok [])
  | some (.error e) :: _ => some (.error e)
  | some (.ok a) :: rest => (lookEagerly rest).map (·.map (a :: ·))
  | none :: rest =>
    match lookEagerly rest with
    | some (.error e) => some (.error e)
    | _ => none

theorem eq_map_of_lookEagerly {l : List (Option (Except ε α))} {outputs : List α}
    (h : lookEagerly l = some (.ok outputs)) : l = outputs.map fun a => some (.ok a) := by
  fun_induction lookEagerly l generalizing outputs with
  | case1 =>
    obtain rfl := Except.ok.inj (Option.some.inj h)
    rfl
  | case2 => nomatch h
  | case3 a rest ih =>
    obtain ⟨tail, htail, hmap⟩ := Option.map_eq_some_iff.mp h
    cases tail with
    | error e => nomatch hmap
    | ok tail =>
      obtain rfl := Except.ok.inj hmap
      rw [List.map_cons, ← ih htail]
  | case4 => nomatch h
  | case5 => nomatch h

theorem exists_of_lookEagerly {l : List (Option (Except ε α))} {e : ε}
    (h : lookEagerly l = some (.error e)) :
    ∃ before after, l = before ++ some (.error e) :: after ∧ ∀ e', some (.error e') ∉ before := by
  fun_induction lookEagerly l with
  | case1 => nomatch h
  | case2 e' rest =>
    obtain rfl := Except.error.inj (Option.some.inj h)
    exact ⟨[], rest, rfl, fun _ => List.not_mem_nil⟩
  | case3 a rest ih =>
    obtain ⟨tail, htail, hmap⟩ := Option.map_eq_some_iff.mp h
    cases tail with
    | error e' =>
      obtain rfl := Except.error.inj hmap
      obtain ⟨before, after, rfl, hbefore⟩ := ih htail
      exact ⟨some (.ok a) :: before, after, rfl, by simpa using hbefore⟩
    | ok tail => nomatch hmap
  | case4 rest e' htail ih =>
    obtain rfl := Except.error.inj (Option.some.inj h)
    obtain ⟨before, after, rfl, hbefore⟩ := ih htail
    exact ⟨none :: before, after, rfl, by simpa using hbefore⟩
  | case5 => nomatch h

theorem isSome_lookEagerly {l : List (Option (Except ε α))} (h : none ∉ l) :
    (lookEagerly l).isSome := by
  fun_induction lookEagerly l with
  | case1 => rfl
  | case2 => rfl
  | case3 a rest ih =>
    rw [Option.isSome_map]
    exact ih fun hmem => h (List.mem_cons_of_mem _ hmem)
  | case4 => rfl
  | case5 rest => exact absurd List.mem_cons_self h

/-- The joiner that stops at a failure as soon as there is one. -/
def eager : Joiner ε α where
  look := lookEagerly
  look_ok := eq_map_of_lookEagerly
  look_error := exists_of_lookEagerly
  look_settled := isSome_lookEagerly

end Joiner

/-! ### The tasks -/

/-- How far the task of a file has come. -/
inductive Stage where
  /-- The file has not been asked for. -/
  | waiting
  | reading
  /-- The text is there, and its notes have yet to be taken from it. -/
  | fetched (source : String)
  | settled (outcome : Except Failure (List Note))

/-- The task of one entry of the resolved list. -/
structure Task where
  path : Path
  stage : Stage

namespace Task

/-- What the task came to, if it is settled. -/
def outcome? : Task → Option (Except Failure (List Note))
  | ⟨_, .settled outcome⟩ => some outcome
  | _ => none

/-- The files a task has asked for so far. -/
def requested : Task → List Path
  | ⟨_, .waiting⟩ => []
  | ⟨path, _⟩ => [path]

/-- The files a task asks for when it goes on. -/
def request : Task → List Path
  | ⟨path, .waiting⟩ => [path]
  | _ => []

/-- The number of times a task can still go on. -/
def remaining : Task → Nat
  | ⟨_, .waiting⟩ => 3
  | ⟨_, .reading⟩ => 2
  | ⟨_, .fetched _⟩ => 1
  | ⟨_, .settled _⟩ => 0

variable (files : FileSource)

/-- The task after it has gone on: a file is asked for, then its text or the reason why there is
none arrives, then notes are taken from the text. -/
def next? : Task → Option Task
  | ⟨path, .waiting⟩ => some ⟨path, .reading⟩
  | ⟨path, .reading⟩ =>
    match files.read path with
    | .error fault => some ⟨path, .settled (.error (.file path fault))⟩
    | .ok source => some ⟨path, .fetched source⟩
  | ⟨path, .fetched source⟩ =>
    match Source.extract path source with
    | .error fault => some ⟨path, .settled (.error (.parse path fault))⟩
    | .ok notes => some ⟨path, .settled (.ok notes)⟩
  | ⟨_, .settled _⟩ => none

/-- What a task holds is what its file comes to. -/
def Faithful : Task → Prop
  | ⟨path, .fetched source⟩ => files.read path = .ok source
  | ⟨path, .settled outcome⟩ => Project.notesOfFile files path = outcome
  | _ => True

variable {files}

/-- All the ways a task can go on. -/
theorem next?_cases {task task' : Task} (h : task.next? files = some task') :
    ∃ path, (task = ⟨path, .waiting⟩ ∧ task' = ⟨path, .reading⟩) ∨
      (∃ fault, files.read path = .error fault ∧ task = ⟨path, .reading⟩ ∧
        task' = ⟨path, .settled (.error (.file path fault))⟩) ∨
      (∃ source, files.read path = .ok source ∧ task = ⟨path, .reading⟩ ∧
        task' = ⟨path, .fetched source⟩) ∨
      (∃ source fault, Source.extract path source = .error fault ∧ task = ⟨path, .fetched source⟩ ∧
        task' = ⟨path, .settled (.error (.parse path fault))⟩) ∨
      ∃ source notes, Source.extract path source = .ok notes ∧ task = ⟨path, .fetched source⟩ ∧
        task' = ⟨path, .settled (.ok notes)⟩ := by
  obtain ⟨path, stage⟩ := task
  refine ⟨path, ?_⟩
  cases stage with
  | waiting => exact .inl ⟨rfl, (Option.some.inj h).symm⟩
  | reading =>
    simp only [next?] at h
    cases hread : files.read path with
    | error fault =>
      rw [hread] at h
      exact .inr (.inl ⟨fault, rfl, rfl, (Option.some.inj h).symm⟩)
    | ok source =>
      rw [hread] at h
      exact .inr (.inr (.inl ⟨source, rfl, rfl, (Option.some.inj h).symm⟩))
  | fetched source =>
    simp only [next?] at h
    cases hextract : Source.extract path source with
    | error fault =>
      rw [hextract] at h
      exact .inr (.inr (.inr (.inl ⟨source, fault, hextract, rfl, (Option.some.inj h).symm⟩)))
    | ok notes =>
      rw [hextract] at h
      exact .inr (.inr (.inr (.inr ⟨source, notes, hextract, rfl, (Option.some.inj h).symm⟩)))
  | settled outcome => nomatch h

/-- A task that is not settled can go on. -/
theorem exists_next? {task : Task} (h : task.outcome? = none) :
    ∃ task', task.next? files = some task' := by
  obtain ⟨path, stage⟩ := task
  cases stage with
  | waiting => exact ⟨_, rfl⟩
  | reading =>
    simp only [next?]
    cases files.read path <;> exact ⟨_, rfl⟩
  | fetched source =>
    simp only [next?]
    cases Source.extract path source <;> exact ⟨_, rfl⟩
  | settled outcome => nomatch h

theorem path_next? {task task' : Task} (h : task.next? files = some task') :
    task'.path = task.path := by
  obtain ⟨path, ⟨rfl, rfl⟩ | ⟨_, _, rfl, rfl⟩ | ⟨_, _, rfl, rfl⟩ | ⟨_, _, _, rfl, rfl⟩ |
    ⟨_, _, _, rfl, rfl⟩⟩ := next?_cases h <;> rfl

theorem requested_next? {task task' : Task} (h : task.next? files = some task') :
    task'.requested = task.requested ++ task.request := by
  obtain ⟨path, ⟨rfl, rfl⟩ | ⟨_, _, rfl, rfl⟩ | ⟨_, _, rfl, rfl⟩ | ⟨_, _, _, rfl, rfl⟩ |
    ⟨_, _, _, rfl, rfl⟩⟩ := next?_cases h <;> rfl

theorem remaining_next? {task task' : Task} (h : task.next? files = some task') :
    task'.remaining < task.remaining := by
  obtain ⟨path, ⟨rfl, rfl⟩ | ⟨_, _, rfl, rfl⟩ | ⟨_, _, rfl, rfl⟩ | ⟨_, _, _, rfl, rfl⟩ |
    ⟨_, _, _, rfl, rfl⟩⟩ := next?_cases h <;> simp [remaining]

theorem faithful_next? {task task' : Task} (h : task.next? files = some task')
    (hfaithful : task.Faithful files) : task'.Faithful files := by
  obtain ⟨path, ⟨rfl, rfl⟩ | ⟨_, hread, rfl, rfl⟩ | ⟨_, hread, rfl, rfl⟩ |
    ⟨_, _, hextract, rfl, rfl⟩ | ⟨_, _, hextract, rfl, rfl⟩⟩ := next?_cases h
  · trivial
  · exact Project.notesOfFile_eq_error_iff.mpr (.unreadable hread)
  · exact hread
  · exact Project.notesOfFile_eq_error_iff.mpr (.malformed hfaithful hextract)
  · exact Project.notesOfFile_eq_ok_iff.mpr ⟨_, hfaithful, hextract⟩

theorem notesOfFile_of_outcome? {task : Task} (hfaithful : task.Faithful files)
    {outcome : Except Failure (List Note)} (h : task.outcome? = some outcome) :
    Project.notesOfFile files task.path = outcome ∧ task.requested = [task.path] := by
  obtain ⟨path, stage⟩ := task
  cases stage with
  | settled outcome' =>
    obtain rfl := Option.some.inj h
    exact ⟨hfaithful, rfl⟩
  | _ => nomatch h

end Task

/-! ### The collection -/

/-- How far a collection has come. -/
inductive Phase where
  /-- The list of files is being looked for. -/
  | resolving
  /-- Every entry of the list has its task. -/
  | joining (tasks : List Task)
  | finished (result : Except Failure (List Note))

/-- A collection under way. -/
structure Collection where
  /-- The files that were asked for so far. -/
  reads : List Path
  phase : Phase

namespace Collection

def start : Collection := ⟨[], .resolving⟩

variable (files : FileSource) (dir : Path) (patterns ignore : List String)
variable (join : Joiner Failure (List Note))

/-- What can happen next: the list of files cannot be had or is there, some task goes on, or the
joiner looks at the tasks and has a result. -/
inductive Step : Collection → Collection → Prop
  | refuse {reads : List Path} {failure : Failure}
      (h : files.resolve patterns ignore dir = .error failure) :
      Step ⟨reads, .resolving⟩ ⟨reads, .finished (.error failure)⟩
  | launch {reads paths : List Path} (h : files.resolve patterns ignore dir = .ok paths) :
      Step ⟨reads, .resolving⟩ ⟨reads, .joining (paths.map fun path => ⟨path, .waiting⟩)⟩
  | advance {reads : List Path} {before after : List Task} {task task' : Task}
      (h : task.next? files = some task') :
      Step ⟨reads, .joining (before ++ task :: after)⟩
        ⟨reads ++ task.request, .joining (before ++ task' :: after)⟩
  | finish {reads : List Path} {tasks : List Task} {outcome : Except Failure (List (List Note))}
      (h : join.look (tasks.map Task.outcome?) = some outcome) :
      Step ⟨reads, .joining tasks⟩ ⟨reads, .finished (outcome.map List.flatten)⟩

/-- A state that some order of events leads to. -/
def Reached (s : Collection) : Prop :=
  Relation.ReflTransGen (Step files dir patterns ignore join) start s

/-- What holds of every state that is reached. -/
inductive Invariant : Collection → Prop
  | resolving : Invariant ⟨[], .resolving⟩
  | joining {reads : List Path} {tasks : List Task}
      (hresolve : files.resolve patterns ignore dir = .ok (tasks.map Task.path))
      (hfaithful : ∀ task ∈ tasks, task.Faithful files)
      (hreads : reads.Perm (tasks.flatMap Task.requested)) : Invariant ⟨reads, .joining tasks⟩
  | refused {failure : Failure} (hresolve : files.resolve patterns ignore dir = .error failure) :
      Invariant ⟨[], .finished (.error failure)⟩
  | collected {reads paths : List Path} {parts : List (List Note)}
      (hresolve : files.resolve patterns ignore dir = .ok paths)
      (hparts : List.Forall₂ files.Yields paths parts) (hreads : reads.Perm paths) :
      Invariant ⟨reads, .finished (.ok parts.flatten)⟩
  | failed {reads paths : List Path} {path : Path} {failure : Failure}
      (hresolve : files.resolve patterns ignore dir = .ok paths) (hpath : path ∈ paths)
      (hfails : files.FailsWith path failure) : Invariant ⟨reads, .finished (.error failure)⟩

variable {files dir patterns ignore join}

/-! ### What the joiner sees -/

theorem forall₂_yields_of_outcomes {tasks : List Task} {parts : List (List Note)}
    (hfaithful : ∀ task ∈ tasks, task.Faithful files)
    (h : tasks.map Task.outcome? = parts.map fun notes => some (.ok notes)) :
    List.Forall₂ files.Yields (tasks.map Task.path) parts ∧
      tasks.flatMap Task.requested = tasks.map Task.path := by
  induction tasks generalizing parts with
  | nil =>
    obtain rfl := List.map_eq_nil_iff.mp h.symm
    exact ⟨.nil, rfl⟩
  | cons task tasks ih =>
    obtain ⟨notes, parts, rfl, hnotes, hparts⟩ := List.map_eq_cons_iff.mp h.symm
    obtain ⟨hhead, htail⟩ := List.forall_mem_cons.mp hfaithful
    obtain ⟨hyields, hrequested⟩ := ih htail hparts.symm
    obtain ⟨hnotes, hrequest⟩ := Task.notesOfFile_of_outcome? hhead hnotes.symm
    refine ⟨.cons (Project.notesOfFile_eq_ok_iff.mp hnotes) hyields, ?_⟩
    rw [List.flatMap_cons, hrequest, hrequested]
    rfl

theorem failsWith_of_outcome {task : Task} (hfaithful : task.Faithful files) {failure : Failure}
    (h : task.outcome? = some (.error failure)) : files.FailsWith task.path failure :=
  Project.notesOfFile_eq_error_iff.mp (Task.notesOfFile_of_outcome? hfaithful h).1

/-- A file does not both fail and yield notes. -/
theorem not_failsWith_of_yields {path : Path} {notes : List Note} {failure : Failure}
    (hyields : files.Yields path notes) : ¬ files.FailsWith path failure := by
  intro hfails
  have hok := Project.notesOfFile_eq_ok_iff.mpr hyields
  rw [Project.notesOfFile_eq_error_iff.mpr hfails] at hok
  nomatch hok

/-- **The first failing file of the list is the one named, if its task is settled.** -/
theorem look_first_failing {before after : List Task} {task : Task} {failure : Failure}
    (hfaithful : ∀ t ∈ before ++ task :: after, t.Faithful files)
    (hbefore : ∀ t ∈ before, ∃ notes, files.Yields t.path notes)
    (hfails : files.FailsWith task.path failure) (hsettled : task.outcome?.isSome)
    {outcome : Except Failure (List (List Note))}
    (h : join.look ((before ++ task :: after).map Task.outcome?) = some outcome) :
    outcome = .error failure := by
  have htask : task.outcome? = some (.error failure) := by
    obtain ⟨own, hown⟩ := Option.isSome_iff_exists.mp hsettled
    have hmem : task ∈ before ++ task :: after :=
      List.mem_append_right before List.mem_cons_self
    have hnotes := (Task.notesOfFile_of_outcome? (hfaithful task hmem) hown).1
    rw [hown, ← hnotes, Project.notesOfFile_eq_error_iff.mpr hfails]
  have hclear : ∀ e, some (.error e) ∉ before.map Task.outcome? := by
    intro e hmem
    obtain ⟨t, ht, hout⟩ := List.mem_map.mp hmem
    obtain ⟨notes, hyields⟩ := hbefore t ht
    exact not_failsWith_of_yields hyields
      (failsWith_of_outcome (hfaithful t (List.mem_append_left _ ht)) hout)
  rw [List.map_append, List.map_cons, htask] at h
  exact join.eq_error_of_look hclear h

/-! ### Runs -/

theorem exists_look_of_step {reads reads' : List Path} {tasks : List Task}
    {result : Except Failure (List Note)}
    (h : Step files dir patterns ignore join ⟨reads, .joining tasks⟩ ⟨reads', .finished result⟩) :
    ∃ outcome, join.look (tasks.map Task.outcome?) = some outcome ∧
      result = outcome.map List.flatten := by
  cases h with
  | finish hlook => exact ⟨_, hlook, rfl⟩

/-- What the joiner's result says about the files. -/
theorem invariant_of_look {reads : List Path} {tasks : List Task}
    (hresolve : files.resolve patterns ignore dir = .ok (tasks.map Task.path))
    (hfaithful : ∀ task ∈ tasks, task.Faithful files)
    (hreads : reads.Perm (tasks.flatMap Task.requested))
    {outcome : Except Failure (List (List Note))}
    (h : join.look (tasks.map Task.outcome?) = some outcome) :
    Invariant files dir patterns ignore ⟨reads, .finished (outcome.map List.flatten)⟩ := by
  cases outcome with
  | ok parts =>
    obtain ⟨hyields, hrequested⟩ := forall₂_yields_of_outcomes hfaithful (join.look_ok h)
    rw [hrequested] at hreads
    exact .collected hresolve hyields hreads
  | error failure =>
    obtain ⟨known, rest, hsplit, -⟩ := join.look_error h
    have hmem : some (.error failure) ∈ tasks.map Task.outcome? := by
      rw [hsplit]
      exact List.mem_append_right known List.mem_cons_self
    obtain ⟨task, htask, hout⟩ := List.mem_map.mp hmem
    exact .failed hresolve (List.mem_map_of_mem htask)
      (failsWith_of_outcome (hfaithful task htask) hout)

theorem faithful_replace {before after : List Task} {task task' : Task}
    (hfaithful : ∀ t ∈ before ++ task :: after, t.Faithful files)
    (h : task.next? files = some task') : ∀ t ∈ before ++ task' :: after, t.Faithful files := by
  simp only [List.forall_mem_append, List.forall_mem_cons] at hfaithful ⊢
  obtain ⟨hbefore, htask, hafter⟩ := hfaithful
  exact ⟨hbefore, Task.faithful_next? h htask, hafter⟩

/-- When a task goes on, what it asks for is added to what all tasks have asked for. -/
theorem requested_replace {before after : List Task} {task task' : Task}
    (h : task.next? files = some task') :
    ((before ++ task :: after).flatMap Task.requested ++ task.request).Perm
      ((before ++ task' :: after).flatMap Task.requested) := by
  simp only [List.flatMap_append, List.flatMap_cons, Task.requested_next? h, List.append_assoc]
  refine List.Perm.append_left _ (List.Perm.append_left _ ?_)
  exact List.perm_append_comm

theorem Invariant.step {s t : Collection} (hs : Invariant files dir patterns ignore s)
    (h : Step files dir patterns ignore join s t) : Invariant files dir patterns ignore t := by
  cases h with
  | refuse hresolve =>
    cases hs
    exact .refused hresolve
  | @launch _ paths hresolve =>
    cases hs
    refine .joining ?_ ?_ ?_
    · rw [hresolve, List.map_map]
      exact congrArg Except.ok (List.map_id paths).symm
    · intro task hmem
      obtain ⟨path, -, rfl⟩ := List.mem_map.mp hmem
      trivial
    · have hnone : (paths.map fun path => (⟨path, .waiting⟩ : Task)).flatMap Task.requested = [] :=
        List.flatMap_eq_nil_iff.mpr fun task hmem => by
          obtain ⟨path, -, rfl⟩ := List.mem_map.mp hmem
          rfl
      rw [hnone]
  | advance hnext =>
    cases hs with
    | joining hresolve hfaithful hreads =>
      refine .joining ?_ (faithful_replace hfaithful hnext) ?_
      · rw [hresolve]
        simp only [List.map_append, List.map_cons, Task.path_next? hnext]
      · exact (hreads.append_right _).trans (requested_replace hnext)
  | finish hlook =>
    cases hs with
    | joining hresolve hfaithful hreads => exact invariant_of_look hresolve hfaithful hreads hlook

theorem Reached.invariant {s : Collection} (h : Reached files dir patterns ignore join s) :
    Invariant files dir patterns ignore s := by
  induction h with
  | refl => exact .resolving
  | tail _ hstep ih => exact ih.step hstep

/-! ### Every run ends -/

theorem acc_finished (reads : List Path) (result : Except Failure (List Note)) :
    Acc (fun t s => Step files dir patterns ignore join s t) ⟨reads, .finished result⟩ := by
  constructor
  intro t h
  cases h

theorem remaining_replace {before after : List Task} {task task' : Task}
    (h : task.next? files = some task') :
    ((before ++ task' :: after).map Task.remaining).sum <
      ((before ++ task :: after).map Task.remaining).sum := by
  simp only [List.map_append, List.map_cons, List.sum_append, List.sum_cons]
  have hlt := Task.remaining_next? h
  omega

theorem acc_joining (reads : List Path) (tasks : List Task) :
    Acc (fun t s => Step files dir patterns ignore join s t) ⟨reads, .joining tasks⟩ := by
  -- The induction is on how often tasks can still go on.
  induction hn : (tasks.map Task.remaining).sum using Nat.strongRecOn
    generalizing reads tasks with
  | ind n ih =>
    constructor
    intro t h
    cases h with
    | advance hnext =>
      refine ih _ ?_ _ _ rfl
      rw [← hn]
      exact remaining_replace hnext
    | finish _ => exact acc_finished _ _

/-- **No run goes on for ever.** -/
theorem wellFounded_step : WellFounded (fun t s => Step files dir patterns ignore join s t) := by
  constructor
  rintro ⟨reads, phase⟩
  cases phase with
  | resolving =>
    constructor
    intro t h
    cases h with
    | refuse _ => exact acc_finished _ _
    | launch _ => exact acc_joining _ _
  | joining tasks => exact acc_joining reads tasks
  | finished result => exact acc_finished reads result

/-- **A collection that has not finished can go on.** -/
theorem exists_step {s : Collection} (h : ∀ result, s.phase ≠ .finished result) :
    ∃ t, Step files dir patterns ignore join s t := by
  obtain ⟨reads, phase⟩ := s
  cases phase with
  | resolving =>
    cases hresolve : files.resolve patterns ignore dir with
    | error failure => exact ⟨_, .refuse hresolve⟩
    | ok paths => exact ⟨_, .launch hresolve⟩
  | joining tasks =>
    by_cases hnone : none ∈ tasks.map Task.outcome?
    · obtain ⟨task, htask, hout⟩ := List.mem_map.mp hnone
      obtain ⟨before, after, rfl⟩ := List.append_of_mem htask
      obtain ⟨task', hnext⟩ := @Task.exists_next? files task hout
      exact ⟨_, .advance hnext⟩
    · obtain ⟨outcome, hlook⟩ := Option.isSome_iff_exists.mp (join.look_settled hnone)
      exact ⟨_, .finish hlook⟩
  | finished result => exact absurd rfl (h result)

/-! ### What a run comes to -/

theorem Invariant.of_resolve_error {s : Collection} (hs : Invariant files dir patterns ignore s)
    {failure : Failure} (h : files.resolve patterns ignore dir = .error failure) :
    s.reads = [] ∧ ∀ result, s.phase = .finished result → result = .error failure := by
  cases hs with
  | resolving => exact ⟨rfl, nofun⟩
  | refused hresolve =>
    rw [h] at hresolve
    obtain rfl := Except.error.inj hresolve
    exact ⟨rfl, fun result hphase => (Phase.finished.inj hphase).symm⟩
  | joining hresolve => nomatch h.symm.trans hresolve
  | collected hresolve => nomatch h.symm.trans hresolve
  | failed hresolve => nomatch h.symm.trans hresolve

theorem Invariant.result_cases {s : Collection} (hs : Invariant files dir patterns ignore s)
    {paths : List Path} (h : files.resolve patterns ignore dir = .ok paths)
    {result : Except Failure (List Note)} (hphase : s.phase = .finished result) :
    (∃ parts, List.Forall₂ files.Yields paths parts ∧ result = .ok parts.flatten ∧
      s.reads.Perm paths) ∨
    ∃ path ∈ paths, ∃ failure, files.FailsWith path failure ∧ result = .error failure := by
  cases hs with
  | resolving => nomatch hphase
  | joining => nomatch hphase
  | refused hresolve => nomatch h.symm.trans hresolve
  | @collected _ _ parts hresolve hparts hreads =>
    rw [h] at hresolve
    obtain rfl := Except.ok.inj hresolve
    exact .inl ⟨parts, hparts, (Phase.finished.inj hphase).symm, hreads⟩
  | @failed _ _ path failure hresolve hpath hfails =>
    rw [h] at hresolve
    obtain rfl := Except.ok.inj hresolve
    exact .inr ⟨path, hpath, failure, hfails, (Phase.finished.inj hphase).symm⟩

/-- A file of a list that yields notes throughout does not fail. -/
theorem not_failsWith_of_forall₂ {paths : List Path} {parts : List (List Note)}
    (h : List.Forall₂ files.Yields paths parts) {path : Path} (hpath : path ∈ paths)
    {failure : Failure} : ¬ files.FailsWith path failure := by
  induction h with
  | nil => nomatch hpath
  | cons hyields _ ih =>
    obtain rfl | hpath := List.mem_cons.mp hpath
    · exact not_failsWith_of_yields hyields
    · exact ih hpath

theorem forall₂_yields_unique {paths : List Path} {parts parts' : List (List Note)}
    (h : List.Forall₂ files.Yields paths parts) (h' : List.Forall₂ files.Yields paths parts') :
    parts = parts' := by
  rw [← Project.mapM_notesOfFile_eq_ok_iff] at h h'
  exact Except.ok.inj (h.symm.trans h')

theorem Invariant.result_of_yields {s : Collection} (hs : Invariant files dir patterns ignore s)
    {paths : List Path} (h : files.resolve patterns ignore dir = .ok paths)
    {result : Except Failure (List Note)} (hphase : s.phase = .finished result)
    {parts : List (List Note)} (hparts : List.Forall₂ files.Yields paths parts) :
    result = .ok parts.flatten ∧ s.reads.Perm paths := by
  obtain ⟨parts', hparts', rfl, hreads⟩ | ⟨path, hpath, failure, hfails, -⟩ :=
    hs.result_cases h hphase
  · rw [forall₂_yields_unique hparts hparts']
    exact ⟨rfl, hreads⟩
  · exact absurd hfails (not_failsWith_of_forall₂ hparts hpath)

theorem Invariant.result_of_failsWith {s : Collection} (hs : Invariant files dir patterns ignore s)
    {paths : List Path} (h : files.resolve patterns ignore dir = .ok paths)
    {result : Except Failure (List Note)} (hphase : s.phase = .finished result)
    {path : Path} (hpath : path ∈ paths) {failure : Failure}
    (hfails : files.FailsWith path failure) :
    ∃ path ∈ paths, ∃ failure, files.FailsWith path failure ∧ result = .error failure := by
  obtain ⟨parts, hparts, -⟩ | hnamed := hs.result_cases h hphase
  · exact absurd hfails (not_failsWith_of_forall₂ hparts hpath)
  · exact hnamed

/-- A run succeeds just when collecting the files one by one does, with the same notes. -/
theorem Invariant.result_eq_ok_iff {s : Collection} (hs : Invariant files dir patterns ignore s)
    {paths : List Path} (h : files.resolve patterns ignore dir = .ok paths)
    {result : Except Failure (List Note)} (hphase : s.phase = .finished result)
    {notes : List Note} :
    result = .ok notes ↔ Project.collect files dir patterns ignore = .ok notes := by
  rw [Project.collect_eq_ok_iff h]
  constructor
  · rintro rfl
    obtain ⟨parts, hparts, hnotes, -⟩ | ⟨_, _, _, _, hnotes⟩ := hs.result_cases h hphase
    · exact ⟨parts, hparts, Except.ok.inj hnotes⟩
    · nomatch hnotes
  · rintro ⟨parts, hparts, rfl⟩
    exact (hs.result_of_yields h hphase hparts).1

theorem Invariant.result_of_first_failing {s : Collection}
    (hs : Invariant files dir patterns ignore s) {before after : List Task} {task : Task}
    (hphase : s.phase = .joining (before ++ task :: after))
    (hbefore : ∀ t ∈ before, ∃ notes, files.Yields t.path notes) {failure : Failure}
    (hfails : files.FailsWith task.path failure) (hsettled : task.outcome?.isSome)
    {result : Except Failure (List Note)}
    (hstep : Step files dir patterns ignore join s ⟨s.reads, .finished result⟩) :
    result = .error failure ∧ Project.collect files dir patterns ignore = .error failure := by
  obtain ⟨reads, phase⟩ := s
  obtain rfl : phase = .joining (before ++ task :: after) := hphase
  cases hs with
  | joining hresolve hfaithful hreads =>
    obtain ⟨outcome, hlook, rfl⟩ := exists_look_of_step hstep
    obtain rfl := look_first_failing hfaithful hbefore hfails hsettled hlook
    refine ⟨rfl, (Project.collect_eq_error_iff hresolve).mpr ?_⟩
    refine ⟨before.map Task.path, task.path, after.map Task.path, ?_, ?_, hfails⟩
    · rw [List.map_append, List.map_cons]
    · exact List.forall_mem_map.mpr hbefore

/-- **The order of events does not matter.**  In every state that is reached:
* if the list cannot be resolved, no file has been asked for, and a result is that failure;
* if all files of the list yield notes, a result is their notes in the order of the list, and every
  entry has been asked for once; if some file fails, a result is the failure of a file that fails,
  with its path and its reason; either way it is a success just when collecting the files one by one
  is, with the same notes;
* the joiner's result is the failure of the first file of the list that fails, if the task of that
  file is settled by then, as it is when all tasks get ready between two looks;
* the collection has finished unless it can go on, and it cannot go on for ever. -/
theorem result_of_any_order {s : Collection} (hs : Reached files dir patterns ignore join s) :
    (∀ failure, files.resolve patterns ignore dir = .error failure →
      s.reads = [] ∧ ∀ result, s.phase = .finished result → result = .error failure) ∧
    (∀ paths, files.resolve patterns ignore dir = .ok paths →
      ∀ result, s.phase = .finished result →
        (∀ parts, List.Forall₂ files.Yields paths parts →
          result = .ok parts.flatten ∧ s.reads.Perm paths) ∧
        ((∃ path ∈ paths, ∃ failure, files.FailsWith path failure) →
          ∃ path ∈ paths, ∃ failure, files.FailsWith path failure ∧ result = .error failure) ∧
        ∀ notes, result = .ok notes ↔ Project.collect files dir patterns ignore = .ok notes) ∧
    (∀ before task after failure result, s.phase = .joining (before ++ task :: after) →
      (∀ t ∈ before, ∃ notes, files.Yields t.path notes) →
      files.FailsWith task.path failure → task.outcome?.isSome →
      Step files dir patterns ignore join s ⟨s.reads, .finished result⟩ →
      result = .error failure ∧ Project.collect files dir patterns ignore = .error failure) ∧
    ((∃ result, s.phase = .finished result) ∨ ∃ t, Step files dir patterns ignore join s t) ∧
    Acc (fun t s => Step files dir patterns ignore join s t) s := by
  have hinv := hs.invariant
  refine ⟨fun failure h => hinv.of_resolve_error h, ?_, ?_, ?_, wellFounded_step.apply s⟩
  · intro paths h result hphase
    refine ⟨?_, ?_, fun notes => hinv.result_eq_ok_iff h hphase⟩
    · intro parts hparts
      exact hinv.result_of_yields h hphase hparts
    · rintro ⟨path, hpath, failure, hfails⟩
      exact hinv.result_of_failsWith h hphase hpath hfails
  · intro before task after failure result hphase hbefore hfails hsettled hstep
    exact hinv.result_of_first_failing hphase hbefore hfails hsettled hstep
  · by_cases hfinished : ∃ result, s.phase = .finished result
    · exact .inl hfinished
    · exact .inr (exists_step fun result hphase => hfinished ⟨result, hphase⟩)

/-- Three entries for two files, none of which can be read. -/
def unreadable : FileSource where
  resolve _ _ _ := .ok [⟨"b.rs"⟩, ⟨"c.rs"⟩, ⟨"b.rs"⟩]
  journal _ _ _ := []
  read _ := .error (.other "denied")

/-- The tasks of these entries, of which only the one in the middle has begun. -/
def middleFirst (stage : Stage) : List Task :=
  [⟨⟨"b.rs"⟩, .waiting⟩, ⟨⟨"c.rs"⟩, stage⟩, ⟨⟨"b.rs"⟩, .waiting⟩]

/-- The file in the middle is named although one by one the first would be. -/
theorem second_file_named :
    Reached unreadable ⟨"/repo"⟩ ["*.rs"] [] Joiner.eager
      ⟨[⟨"c.rs"⟩], .finished (.error (.file ⟨"c.rs"⟩ (.other "denied")))⟩ ∧
    (∃ path ∈ [⟨"b.rs"⟩, ⟨"c.rs"⟩, ⟨"b.rs"⟩], ∃ failure, unreadable.FailsWith path failure ∧
      (.error (.file ⟨"c.rs"⟩ (.other "denied")) : Except Failure (List Note)) = .error failure) ∧
    Project.collect unreadable ⟨"/repo"⟩ ["*.rs"] []
      = .error (.file ⟨"b.rs"⟩ (.other "denied")) := by
  have hlaunch : Step unreadable ⟨"/repo"⟩ ["*.rs"] [] Joiner.eager start
      ⟨[], .joining (middleFirst .waiting)⟩ :=
    @Step.launch _ _ _ _ _ [] [⟨"b.rs"⟩, ⟨"c.rs"⟩, ⟨"b.rs"⟩] rfl
  have hadvance : ∀ {reads stage stage'},
      Task.next? unreadable ⟨⟨"c.rs"⟩, stage⟩ = some ⟨⟨"c.rs"⟩, stage'⟩ →
      Step unreadable ⟨"/repo"⟩ ["*.rs"] [] Joiner.eager ⟨reads, .joining (middleFirst stage)⟩
        ⟨reads ++ Task.request ⟨⟨"c.rs"⟩, stage⟩, .joining (middleFirst stage')⟩ := fun h =>
    @Step.advance _ _ _ _ _ _ [⟨⟨"b.rs"⟩, .waiting⟩] [⟨⟨"b.rs"⟩, .waiting⟩] _ _ h
  have hreached : Reached unreadable ⟨"/repo"⟩ ["*.rs"] [] Joiner.eager
      ⟨[⟨"c.rs"⟩], .finished (.error (.file ⟨"c.rs"⟩ (.other "denied")))⟩ :=
    (((Relation.ReflTransGen.single hlaunch).tail (hadvance rfl)).tail (hadvance rfl)).tail
      (@Step.finish _ _ _ _ _ _ _ (.error (.file ⟨"c.rs"⟩ (.other "denied"))) rfl)
  refine ⟨hreached, ?_, rfl⟩
  exact ((result_of_any_order hreached).2.1 _ rfl _ rfl).2.1
    ⟨⟨"b.rs"⟩, List.mem_cons_self, _, .unreadable rfl⟩

end Collection

end CodeNotes
