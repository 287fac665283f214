import CodeNotes.Proofs.Disk.Write

/-!
# Disks that differ by a file

A file that is new on a disk changes little of where paths lead.  A walk ends as it did before,
unless it went to the place of the file, or on from there (`walk_of_differs`).  So a path leads to a
directory on both disks or on neither (`isDirectory_of_differs`), and the directory has the same
names, apart from that of the file (`list_of_written`).
-/

namespace CodeNotes.Disk

open Node

variable {d d' : Disk} {p q : Path} {l loc : Location} {k : Nat} {xs : List String}
  {through : Bool}

/-! ### Walks -/

theorem Differs.kindAt_of_ne_file (h : Differs d d' loc) {kind : Kind}
    (hkind : d.root.kindAt l = some kind) (hfile : ∀ content, kind ≠ .file content false) :
    d'.root.kindAt l = some kind := by
  have hne : l ≠ loc := by
    rintro rfl
    rcases h.before with hnone | ⟨old, hold⟩
    · rw [hnone] at hkind
      nomatch hkind
    · rw [hold] at hkind
      exact hfile old (Option.some.inj hkind).symm
  rw [h.other l hne, hkind]

theorem Differs.not_hasDirectory (h : Differs d d' loc) : ¬d'.root.HasDirectory loc := by
  obtain ⟨content, hafter⟩ := h.after
  rintro ⟨locked, hdir⟩
  rw [hafter] at hdir
  nomatch hdir

theorem Differs.hasDirectory_iff (h : Differs d d' loc) :
    d'.root.HasDirectory l ↔ d.root.HasDirectory l := by
  constructor
  · rintro ⟨locked, hdir⟩
    have hne : l ≠ loc := by
      rintro rfl
      exact h.not_hasDirectory ⟨locked, hdir⟩
    exact ⟨locked, by rw [← h.other l hne, hdir]⟩
  · rintro ⟨locked, hdir⟩
    exact ⟨locked, h.kindAt_of_ne_file hdir (by simp)⟩

theorem LooksUp.of_differs {s : String} (h : Differs d d' loc) (hname : LooksUp d.root l s) :
    LooksUp d'.root l s where
  directory := h.kindAt_of_ne_file hname.directory (by simp)
  ne_dot := hname.ne_dot
  ne_up := hname.ne_up
  size_le := hname.size_le

theorem walk_barred {root : Node} {s : String} {rest : List String} (h : ¬root.HasDirectory l) :
    walk root through k l (s :: rest) = .error .notDirectory := by
  rw [walk_cons]
  split
  · next hdir => exact absurd ⟨true, hdir⟩ h
  · next hdir => exact absurd ⟨false, hdir⟩ h
  · rfl

/-- **What a new file does to a walk**: nothing, unless the walk arrived at its place, where nothing
was, or was lost there. -/
theorem walk_of_differs (h : Differs d d' loc) {r : Except Fault Arrival}
    (hr : Walks d.root through k l xs r) :
    r ≠ .ok ⟨loc, false⟩ ∧ walk d'.root through k l xs = r ∨
      r = .ok ⟨loc, false⟩ ∧ walk d'.root through k l xs = .ok ⟨loc, true⟩ ∨
      r = .error .notFound ∧ walk d'.root through k l xs = .error .notDirectory := by
  obtain ⟨content, hafter⟩ := h.after
  induction hr with
  | arrived => exact .inl ⟨by simp, walk_nil ..⟩
  | locked hlocked =>
    rw [walk_cons, h.kindAt_of_ne_file hlocked (by simp)]
    exact .inl ⟨by simp, rfl⟩
  | barred hbarred => exact .inl ⟨by simp, walk_barred (h.hasDirectory_iff.not.mpr hbarred)⟩
  | dot hdir _ ih => rwa [walk_dot (h.kindAt_of_ne_file hdir (by simp))]
  | up hdir _ ih => rwa [walk_up (h.kindAt_of_ne_file hdir (by simp))]
  | tooLong hdir hdot hup hsize =>
    rw [walk_cons, h.kindAt_of_ne_file hdir (by simp)]
    simp [hdot, hup, hsize]
  | @missing k l s hname hnone =>
    by_cases hloc : l ++ [s] = loc
    · subst hloc
      rw [walk_enter (hname.of_differs h) hafter (by simp), walk_nil]
      exact .inr (.inl ⟨rfl, rfl⟩)
    · rw [walk_lookup (hname.of_differs h), h.other _ hloc, hnone]
      exact .inl ⟨by simp [hloc], rfl⟩
  | @lost k l s rest hname hnone hrest =>
    obtain ⟨t, rest, rfl⟩ := List.exists_cons_of_ne_nil hrest
    by_cases hloc : l ++ [s] = loc
    · subst hloc
      rw [walk_enter (hname.of_differs h) hafter (by simp), walk_barred h.not_hasDirectory]
      exact .inr (.inr ⟨rfl, rfl⟩)
    · rw [walk_lookup (hname.of_differs h), h.other _ hloc, hnone]
      exact .inl ⟨by simp, rfl⟩
  | stopped hname hlink hstop =>
    rw [walk_lookup (hname.of_differs h), h.kindAt_of_ne_file hlink (by simp), hstop]
    exact .inl ⟨by simp, rfl⟩
  | exhausted hname hlink hgo =>
    rw [walk_lookup (hname.of_differs h), h.kindAt_of_ne_file hlink (by simp)]
    rcases hgo with hrest | rfl <;> simp_all
  | followed hname hlink hgo _ ih =>
    rwa [walk_follow (hname.of_differs h) (h.kindAt_of_ne_file hlink (by simp)) hgo]
  | @entered k l s rest kind r hname hkind hlink _ ih =>
    by_cases hloc : l ++ [s] = loc
    · rw [hloc] at ih
      rwa [walk_enter (hname.of_differs h) (by rw [hloc]; exact hafter) (by simp), hloc]
    · rwa [walk_enter (hname.of_differs h) (by rw [h.other _ hloc, hkind]) hlink]

/-! ### Paths -/

theorem arrive_of_differs (h : Differs d d' loc) (through : Bool) (q : Path) :
    d.arrive through q ≠ .ok ⟨loc, false⟩ ∧ d'.arrive through q = d.arrive through q ∨
      d.arrive through q = .ok ⟨loc, false⟩ ∧ d'.arrive through q = .ok ⟨loc, true⟩ ∨
      d.arrive through q = .error .notFound ∧ d'.arrive through q = .error .notDirectory := by
  by_cases hne : q.text = ""
  · left
    simp [arrive, hne]
  by_cases hsize : q.text.utf8ByteSize < pathLimit
  · have hstart : d'.start q = d.start q := by rw [start, start, h.here]
    rw [arrive_eq_walk hne hsize, arrive_eq_walk hne hsize, hstart]
    exact walk_of_differs h (walks ..)
  · left
    simp [arrive, hne, Nat.not_lt.mp hsize]

theorem locate_eq (d : Disk) (q : Path) :
    d.locate q = (d.arrive true q).bind fun a =>
      if a.present then .ok a.location else .error .notFound :=
  rfl

theorem locate_of_differs (h : Differs d d' loc) (q : Path) :
    d'.locate q = d.locate q ∨
      d.locate q = .error .notFound ∧
        (d'.locate q = .ok loc ∨ d'.locate q = .error .notDirectory) := by
  rw [locate_eq, locate_eq]
  rcases arrive_of_differs h true q with ⟨-, hsame⟩ | ⟨hold, hnew⟩ | ⟨hold, hnew⟩
  · left
    rw [hsame]
  · right
    simp [hold, hnew, Except.bind]
  · right
    simp [hold, hnew, Except.bind]

theorem isDirectory_iff :
    d.isDirectory q = true ↔ ∃ l, d.locate q = .ok l ∧ d.root.HasDirectory l := by
  unfold isDirectory node HasDirectory kindAt
  cases d.locate q with
  | error fault => simp [Except.bind]
  | ok l =>
    cases hl : d.root.at? l with
    | none => simp [Except.bind, hl]
    | some n => cases n <;> simp [Except.bind, hl, kind]

theorem isFile_iff : d.isFile q = true ↔
    ∃ l content locked, d.locate q = .ok l ∧ d.root.kindAt l = some (.file content locked) := by
  unfold isFile node kindAt
  cases d.locate q with
  | error fault => simp [Except.bind]
  | ok l =>
    cases hl : d.root.at? l with
    | none => simp [Except.bind, hl]
    | some n =>
      cases n with
      | file content locked =>
        simp only [Except.bind, hl, true_iff]
        exact ⟨l, content, locked, rfl, by rw [hl]; rfl⟩
      | directory entries locked => simp [Except.bind, hl, kind]
      | link target => simp [Except.bind, hl, kind]

theorem locate_of_isDirectory (h : Differs d d' loc) (hdir : d.isDirectory q = true) :
    d'.locate q = d.locate q := by
  obtain ⟨l, hl, -⟩ := isDirectory_iff.mp hdir
  rcases locate_of_differs h q with hsame | ⟨hold, -⟩
  · exact hsame
  · rw [hl] at hold
    nomatch hold

/-- A path leads to a directory on both disks or on neither. -/
theorem isDirectory_of_differs (h : Differs d d' loc) (q : Path) :
    d'.isDirectory q = d.isDirectory q := by
  rw [Bool.eq_iff_iff, isDirectory_iff, isDirectory_iff]
  rcases locate_of_differs h q with hsame | ⟨hold, hnew | hnew⟩
  · simp only [hsame, h.hasDirectory_iff]
  · simpa [hold, hnew] using h.not_hasDirectory
  · simp [hold, hnew]

/-- A file stays one. -/
theorem isFile_of_differs (h : Differs d d' loc) (hfile : d.isFile q = true) :
    d'.isFile q = true ∧ d'.locate q = d.locate q := by
  obtain ⟨l, content, locked, hl, hkind⟩ := isFile_iff.mp hfile
  have hsame : d'.locate q = d.locate q := by
    rcases locate_of_differs h q with hsame | ⟨hold, -⟩
    · exact hsame
    · rw [hl] at hold
      nomatch hold
  refine ⟨isFile_iff.mpr ?_, hsame⟩
  by_cases hloc : l = loc
  · obtain ⟨content', hafter⟩ := h.after
    exact ⟨l, content', false, hsame.trans hl, hloc ▸ hafter⟩
  · exact ⟨l, content, locked, hsame.trans hl, by rw [h.other l hloc, hkind]⟩

/-- A file at another place was there before. -/
theorem isFile_of_differs_of_ne (h : Differs d d' loc) (hfile : d'.isFile q = true)
    (hne : d'.locate q ≠ .ok loc) : d.isFile q = true := by
  obtain ⟨l, content, locked, hl, hkind⟩ := isFile_iff.mp hfile
  have hsame : d'.locate q = d.locate q := by
    rcases locate_of_differs h q with hsame | ⟨-, hnew | hnew⟩
    · exact hsame
    · exact absurd hnew hne
    · rw [hl] at hnew
      nomatch hnew
  have hloc : l ≠ loc := fun heq => hne (heq ▸ hl)
  exact isFile_iff.mpr ⟨l, content, locked, hsame ▸ hl, by rw [← h.other l hloc, hkind]⟩

/-- There is a node at a path, or a link, on both disks or on neither, unless the path leads to the
file. -/
theorem presentOrLink_of_differs (h : Differs d d' loc) (q : Path) :
    d'.presentOrLink q = d.presentOrLink q ∨
      d.presentOrLink q = false ∧ d'.locate q = .ok loc := by
  by_cases hloc : d'.locate q = .ok loc
  · have hpresent : d'.presentOrLink q = true := by
      simp [presentOrLink, locate_eq_ok_iff.mp hloc, Except.toOption]
    cases hq : d.presentOrLink q with
    | true => exact .inl hpresent
    | false => exact .inr ⟨rfl, hloc⟩
  · left
    have hany : ∀ through, (d'.arrive through q).toOption.any (·.present) =
        (d.arrive through q).toOption.any (·.present) := by
      intro through
      rcases arrive_of_differs h through q with ⟨-, hsame⟩ | ⟨-, hnew⟩ | ⟨hold, hnew⟩
      · rw [hsame]
      · -- The path leads to the file, whether or not a link at its end is followed.
        refine absurd (locate_eq_ok_iff.mpr ?_) hloc
        cases through with
        | true => exact hnew
        | false =>
          obtain ⟨hne, hsize, hwalk⟩ := walk_of_arrive hnew
          rw [arrive_eq_walk hne hsize]
          obtain ⟨content, hafter⟩ := h.after
          exact walk_through hwalk (by simp [hafter])
      · rw [hold, hnew]
        rfl
    rw [presentOrLink, presentOrLink, hany, hany]

theorem readBytes_eq (d : Disk) (q : Path) :
    d.readBytes q = (d.locate q).bind fun l =>
      match d.root.kindAt l with
      | none => .error .notFound
      | some (.file _ true) | some (.directory true) => .error .denied
      | some (.file content false) => .ok content
      | some (.directory false) => .error .isDirectory
      | some (.link _) => .error .tooManyLinks := by
  unfold readBytes node kindAt
  cases d.locate q with
  | error fault => rfl
  | ok l =>
    simp only [Except.bind]
    cases d.root.at? l with
    | none => rfl
    | some n => rcases n with ⟨content, _ | _⟩ | ⟨entries, _ | _⟩ | target <;> rfl

/-- At any other place there is to be read what was there before. -/
theorem readText_of_differs (h : Differs d d' loc) (hsame : d'.locate q = d.locate q)
    (hne : d'.locate q ≠ .ok loc) : d'.readText q = d.readText q := by
  have hbytes : d'.readBytes q = d.readBytes q := by
    rw [readBytes_eq, readBytes_eq, ← hsame]
    cases hl : d'.locate q with
    | error fault => rfl
    | ok l =>
      have hloc : l ≠ loc := fun heq => hne (heq ▸ hl)
      simp only [Except.bind, h.other l hloc]
  unfold readText
  rw [hbytes]

/-! ### After a write -/

variable {content : ByteArray}

/-- After a write the path leads to the file. -/
theorem Written.locate (h : Written d p content d' loc) : d'.locate p = .ok loc := by
  have harrive := h.arrive
  rw [locate_eq_ok_iff]
  rcases arrive_of_differs h.differs true p with ⟨hpresent, hsame⟩ | ⟨-, hnew⟩ | ⟨hold, -⟩
  · cases hold : (d.root.kindAt loc).isSome with
    | true => rw [hsame, harrive, hold]
    | false => exact absurd (hold ▸ harrive) hpresent
  · exact hnew
  · rw [harrive] at hold
    nomatch hold

theorem Written.readBytes (h : Written d p content d' loc) : d'.readBytes p = .ok content := by
  rw [readBytes_eq, h.locate]
  simp [Except.bind, kindAt, h.at?_self, kind]

/-- Writing the same again changes nothing. -/
theorem Written.writeBytes_again (h : Written d p content d' loc)
    (hwrite : d.writeBytes p content = .ok d') : d'.writeBytes p content = .ok d' := by
  have hask := asksForDirectory_of_writeBytes hwrite
  have harrive := locate_eq_ok_iff.mp h.locate
  unfold writeBytes
  simp only [hask, Bool.false_and, Bool.false_eq_true, if_false, harrive, Except.bind, if_true,
    h.at?_self]
  rw [h.root, setAt_setAt, ← h.root]

/-! ### Names -/

/-- The order of names in a directory. -/
abbrev nameLE (a b : String) : Bool := decide (a ≤ b)

theorem nameLE_trans (a b c : String) (hab : nameLE a b = true) (hbc : nameLE b c = true) :
    nameLE a c = true := by
  rw [decide_eq_true_eq] at *
  exact String.le_trans hab hbc

theorem nameLE_total (a b : String) : (nameLE a b || nameLE b a) = true := by
  rw [Bool.or_eq_true, decide_eq_true_eq, decide_eq_true_eq]
  exact String.le_total a b

theorem mergeSort_of_perm {names names' : List String} (h : names.Perm names') :
    names.mergeSort nameLE = names'.mergeSort nameLE := by
  refine List.Perm.eq_of_pairwise ?_ (List.pairwise_mergeSort nameLE_trans nameLE_total _)
    (List.pairwise_mergeSort nameLE_trans nameLE_total _) ?_
  · intro a b _ _ hab hba
    rw [decide_eq_true_eq] at *
    exact String.le_antisymm hab hba
  · exact ((List.mergeSort_perm _ _).trans h).trans (List.mergeSort_perm _ _).symm

/-- A name that is added takes its place among the others. -/
theorem exists_mergeSort_concat (names : List String) (s : String) :
    ∃ front back, names.mergeSort nameLE = front ++ back ∧
      (names ++ [s]).mergeSort nameLE = front ++ s :: back := by
  obtain ⟨front, back, hcons, hsort, -⟩ := List.mergeSort_cons nameLE_trans nameLE_total s names
  refine ⟨front, back, hsort, ?_⟩
  rw [← hcons]
  exact mergeSort_of_perm (List.perm_append_singleton s names)

theorem list_eq {locked : Bool} {names : List String} (hl : d.locate q = .ok l)
    (hkind : d.root.kindAt l = some (.directory locked)) (hnames : d.root.namesAt l = some names) :
    d.list q = if locked then .error .denied else .ok (names.mergeSort nameLE) := by
  obtain ⟨entries, hat⟩ := at?_of_kindAt_directory hkind
  rw [namesAt, hat, Option.map_some] at hnames
  obtain rfl := Option.some.inj hnames
  unfold list node
  simp only [hl, hat, Except.bind]
  cases locked <;> rfl

/-- The names in a directory stay as they were, except that the name of a file that was not there
before takes its place among them. -/
theorem list_of_written (h : Written d p content d' loc) (hdir : d.isDirectory q = true) :
    d'.list q = d.list q ∨ ∃ m s front back, loc = m ++ [s] ∧ d.root.kindAt loc = none ∧
      d.locate q = .ok m ∧ d.list q = .ok (front ++ back) ∧
      d'.list q = .ok (front ++ s :: back) := by
  obtain ⟨l, hl, locked, hkind⟩ := isDirectory_iff.mp hdir
  have hl' : d'.locate q = .ok l := (locate_of_isDirectory h.differs hdir).trans hl
  have hkind' := h.differs.kindAt_of_ne_file hkind (by simp)
  obtain ⟨m, s, rfl, hm⟩ := h.parent
  obtain ⟨entries, hat⟩ := at?_of_kindAt_directory hkind
  have hnames : d.root.namesAt l = some (entries.map Prod.fst) := by
    rw [namesAt, hat, Option.map_some]
    rfl
  have hset : d'.root.namesAt l = _ :=
    h.root ▸ namesAt_setAt hm h.not_hasDirectory ⟨locked, hkind⟩
  rw [hnames] at hset
  rw [list_eq hl hkind hnames]
  split_ifs at hset with hnew
  · obtain ⟨rfl, hnone⟩ := hnew
    rw [list_eq hl' hkind' hset]
    cases locked with
    | true => exact .inl rfl
    | false =>
      right
      obtain ⟨front, back, hold, hnew⟩ := exists_mergeSort_concat (entries.map Prod.fst) s
      refine ⟨l, s, front, back, rfl, ?_, hl, ?_, ?_⟩
      · rw [kindAt, hnone, Option.map_none]
      · rw [hold]
        rfl
      · rw [hnew]
        rfl
  · left
    rw [list_eq hl' hkind' hset]

end CodeNotes.Disk
