import CodeNotes.Proofs.Pattern.Search

/-!
# Searching after a file was written

A search on a disk to which a file was written finds the same files as before, in the same order, and
the file itself in addition if it was not there (`search_agrees`).  It does not go on from the file,
below which nothing lies, and it cannot be blocked by it, because a file is not listed.
-/

namespace CodeNotes.Pattern

open Disk Node

/-! ### The new path -/

section NewPath

variable {d d' : Disk} {p q : Path} {content : ByteArray} {m loc : Location} {s : String}

/-- A name of a directory, appended to a path of it, leads to its node unless the path gets too
long; then a search still takes it for a directory only if it is one. -/
theorem locate_step (hq : d.locate q = .ok m) (hname : LooksUp d.root m s) (hne : s ≠ "")
    (hslash : '/' ∉ s.toList) {kind : Kind} (hkind : d.root.kindAt (m ++ [s]) = some kind)
    (hlink : ∀ target, kind ≠ .link target) :
    d.locate (step q s) = .ok (m ++ [s]) ∨
      pathLimit ≤ (step q s).text.utf8ByteSize ∧ (step q s).components ≠ [.current] ∧
        (showsDirectory d (step q s) = true → d.root.HasDirectory (m ++ [s])) := by
  have hhead : s.toList.head? ≠ some '/' := fun h => hslash (List.mem_of_head? h)
  obtain ⟨k, hleads⟩ := leads_of_locate hq
  obtain ⟨hqne, -, -⟩ := walk_of_arrive (locate_eq_ok_iff.mp hq)
  by_cases hcurrent : q.components = [.current]
  · left
    have hstart : d.start ⟨s⟩ = m := by
      have hdots := hleads.withoutDots
      rw [filter_steps, hcurrent] at hdots
      have habs : ¬q.isAbsolute := by
        rw [Path.isAbsolute_iff, hcurrent]
        simp
      rw [start, if_neg habs] at hdots
      rw [start, if_neg (by simpa [Path.isAbsolute] using hhead)]
      cases hdots with
      | nil => rfl
    have hsteps : steps s = [s] := by
      have hlist : s.toList ≠ [] := by simpa using hne
      rw [steps_eq, names_of_not_mem hlist hslash, Path.pieces_of_not_mem hslash,
        String.ofList_toList]
      simp [hne]
    have hsize : s.utf8ByteSize < pathLimit := Nat.lt_of_le_of_lt hname.size_le (by decide)
    rw [step, if_pos (by simp [hcurrent]), locate_eq_ok_iff, arrive_eq_walk hne hsize, hstart, hsteps,
      walk_enter hname hkind hlink, walk_nil]
  · rw [step, if_neg (by simpa using hcurrent)]
    have hwalk : ∀ through, walk d.root through linkLimit (d.start (q.push s))
        (steps (q.push s).text) = .ok ⟨m ++ [s], true⟩ := by
      intro through
      have hstart : d.start (q.push s) = d.start q := by
        rw [start, start, Path.isAbsolute_push hqne hhead]
      rw [hstart, steps_push hqne hne hslash,
        walk_append_of_leads (leads_names hleads) (.inl (List.cons_ne_nil s [])),
        walk_enter hname hkind hlink, walk_nil]
    by_cases hsize : (q.push s).text.utf8ByteSize < pathLimit
    · left
      have hpush : (q.push s).text ≠ "" := by
        rw [Path.push, if_neg (by simpa using hhead)]
        split_ifs <;> simp [hne]
      rw [locate_eq_ok_iff, arrive_eq_walk hpush hsize, hwalk]
    · right
      refine ⟨Nat.not_lt.mp hsize, fun heq => ?_, fun hshows => ?_⟩
      · rw [Path.components_push hqne hhead, Path.pieces_of_not_mem hslash, List.filterMap_cons,
          Path.inner?_name hne hname.ne_dot hname.ne_up] at heq
        have hlast := congrArg List.getLast? heq
        simp at hlast
      · obtain ⟨-, l, hl, hdir⟩ := (showsDirectory_iff_of_size (Nat.not_lt.mp hsize)).mp hshows
        rw [hwalk] at hl
        obtain rfl := congrArg Arrival.location (Except.ok.inj hl)
        exact hdir

/-- Nothing lies below the path of a file that was not there before, and there was no file at it. -/
theorem barren_of_new (h : Written d p content d' loc) (hloc : loc = m ++ [s])
    (hnone : d.root.kindAt loc = none) (hq : d.locate q = .ok m) :
    Barren d' (step q s) ∧ d.isFile (step q s) = false := by
  obtain ⟨hname, hne, hslash⟩ := h.looksUp hloc hnone
  have hdir : d.isDirectory q = true := isDirectory_iff.mpr ⟨m, hq, false, hname.directory⟩
  have hq' : d'.locate q = .ok m := (locate_of_isDirectory h.differs hdir).trans hq
  obtain ⟨new, hafter⟩ := h.differs.after
  have hroot : d'.root.HasDirectory [] :=
    hasDirectory_root ⟨false, (hname.of_differs h.differs).directory⟩
  rcases locate_step hq' (hname.of_differs h.differs) hne hslash (hloc ▸ hafter) (by simp) with
    hlocate | ⟨hsize, hcurrent, hshows⟩
  · rw [← hloc] at hlocate
    refine ⟨barren_of_file hroot hlocate h.differs.not_hasDirectory, ?_⟩
    rw [Bool.eq_false_iff]
    intro hfile
    obtain ⟨l, old, locked, hl, hkind⟩ := isFile_iff.mp hfile
    have hsame := (isFile_of_differs h.differs hfile).2
    rw [hlocate, hl] at hsame
    obtain rfl := Except.ok.inj hsame
    rw [hnone] at hkind
    nomatch hkind
  · have hnot : showsDirectory d' (step q s) = false := by
      rw [Bool.eq_false_iff]
      exact fun h' => h.differs.not_hasDirectory (hloc ▸ hshows h')
    refine ⟨barren_of_size hcurrent hsize hnot, ?_⟩
    rw [Bool.eq_false_iff]
    intro hfile
    obtain ⟨l, old, locked, hl, -⟩ := isFile_iff.mp hfile
    obtain ⟨-, hlt, -⟩ := walk_of_arrive (locate_eq_ok_iff.mp hl)
    exact absurd hlt (Nat.not_lt.mpr hsize)

end NewPath

/-! ### Searches that agree -/

/-- Two searches end in the same way and find the same of what is kept. -/
structure Yield.Agrees (keep : Path → Bool) (a b : Yield) : Prop where
  blocked : a.blocked = b.blocked
  paths : a.paths.filter keep = b.paths.filter keep

namespace Yield

variable {keep : Path → Bool} {a a' b b' : Yield}

theorem Agrees.refl (a : Yield) : Agrees keep a a :=
  ⟨rfl, rfl⟩

theorem Agrees.append (ha : Agrees keep a a') (hb : Agrees keep b b') :
    Agrees keep (a.append b) (a'.append b') := by
  obtain ⟨paths, blocked⟩ := a
  obtain ⟨paths', blocked'⟩ := a'
  obtain ⟨rfl, hpaths⟩ := ha
  cases blocked with
  | some x => exact ⟨rfl, hpaths⟩
  | none =>
    refine ⟨hb.blocked, ?_⟩
    rw [append_of_none rfl, append_of_none rfl, List.filter_append, List.filter_append, hb.paths]
    exact congrArg (· ++ _) hpaths

theorem Agrees.concat {α : Type} {f g : α → Yield} {l : List α}
    (h : ∀ x ∈ l, Agrees keep (f x) (g x)) :
    Agrees keep (Yield.concat (l.map f)) (Yield.concat (l.map g)) := by
  induction l with
  | nil => exact .refl _
  | cons x l ih =>
    rw [List.forall_mem_cons] at h
    exact h.1.append (ih h.2)

end Yield

section Search

variable {d d' : Disk} {p : Path} {content : ByteArray} {loc : Location} {only : Bool}

theorem arrived_of_differs (h : Differs d d' loc) (q : Path) :
    arrived d' only q = arrived d only q := by
  rw [arrived, arrived, showsDirectory_of_differs h]

/-- The names in a directory are searched with the same result, except for the new file. -/
theorem entries_agree (h : Written d p content d' loc) {fuel : Nat} {parts : List Part} {dir : Path}
    {names names' : List String} (hparts : ∀ part ∈ parts, '/' ∉ part.text.toList)
    (hnames : d.list dir = .ok names) (hnames' : d'.list dir = .ok names')
    (hentry : ∀ path, Yield.Agrees d.isFile (entry d only fuel parts path)
      (entry d' only fuel parts path)) :
    Yield.Agrees d.isFile
      (Yield.concat (names.map fun name => entry d only fuel parts (step dir name)))
      (Yield.concat (names'.map fun name => entry d' only fuel parts (step dir name))) := by
  have hsame : ∀ l : List String, Yield.Agrees d.isFile
      (Yield.concat (l.map fun name => entry d only fuel parts (step dir name)))
      (Yield.concat (l.map fun name => entry d' only fuel parts (step dir name))) :=
    fun l => .concat fun name _ => hentry (step dir name)
  rcases list_of_written h (isDirectory_of_list hnames) with
    hlist | ⟨m, s, front, back, hloc, hnone, hm, hold, hnew⟩
  · rw [hnames, hnames'] at hlist
    obtain rfl := Except.ok.inj hlist
    exact hsame names'
  · obtain rfl := Except.ok.inj (hnames.symm.trans hold)
    obtain rfl := Except.ok.inj (hnames'.symm.trans hnew)
    obtain ⟨hbarren, hfile⟩ := barren_of_new h hloc hnone hm
    have hvoid : Yield.Agrees d.isFile {} (entry d' only fuel parts (step dir s)) := by
      rcases @entry_of_barren d' only fuel parts (step dir s) hbarren hparts with hempty | hsingle
      · rw [hempty]
        exact .refl _
      · rw [hsingle]
        exact ⟨rfl, by simp [Yield.single, hfile]⟩
    rw [List.map_append, List.map_append, Yield.concat_append, Yield.concat_append, List.map_cons,
      Yield.concat_cons]
    refine (hsame front).append ?_
    have hback := hvoid.append (hsame back)
    rwa [Yield.empty_append] at hback

/-- What the search does at a path at which nothing was before. -/
theorem literal_agrees (h : Written d p content d' loc) {fuel : Nat} {part : Part} {parts : List Part}
    {dir : Path} (hparts : ∀ part ∈ parts, '/' ∉ part.text.toList)
    (honward : ∀ next, Yield.Agrees d.isFile (onward d only fuel parts next)
      (onward d' only fuel parts next)) :
    Yield.Agrees d.isFile
      (if admits d part dir then onward d only fuel parts (step dir part.text) else {})
      (if admits d' part dir then onward d' only fuel parts (step dir part.text) else {}) := by
  by_cases hadmits : admits d' part dir = admits d part dir
  · rw [hadmits]
    split_ifs
    · exact honward _
    · exact .refl _
  · have hspecial : ¬(part.text == "." || part.text == "..") = true := by
      intro hspecial
      rw [admits, admits, if_pos hspecial, if_pos hspecial,
        showsDirectory_of_differs h.differs] at hadmits
      exact hadmits rfl
    rw [admits, admits, if_neg hspecial, if_neg hspecial] at hadmits ⊢
    obtain ⟨hold, hloc⟩ := (presentOrLink_of_differs h.differs _).resolve_left hadmits
    have hfile : d.isFile (step dir part.text) = false := by
      rw [Bool.eq_false_iff]
      intro hfile
      obtain ⟨l, old, locked, hl, -⟩ := isFile_iff.mp hfile
      simp [presentOrLink, locate_eq_ok_iff.mp hl, Except.toOption] at hold
    obtain ⟨m, s, hms, hm⟩ := h.parent
    have hroot : d'.root.HasDirectory [] := hasDirectory_root (h.differs.hasDirectory_iff.mpr hm)
    have hbarren := barren_of_file hroot hloc h.differs.not_hasDirectory
    rw [if_neg (by simp [hold])]
    split_ifs
    · rcases @onward_of_barren d' only fuel parts _ hbarren hparts with hempty | hsingle
      · rw [hempty]
        exact .refl _
      · rw [hsingle]
        exact ⟨rfl, by simp [Yield.single, hfile]⟩
    · exact .refl _

/-- Searches with the same fuel agree wherever they start. -/
structure SearchAgrees (d d' : Disk) (only : Bool) (fuel : Nat) : Prop where
  inside {parts : List Part} (hparts : ∀ part ∈ parts, '/' ∉ part.text.toList) (dir : Path) :
    Yield.Agrees d.isFile (inside d only fuel parts dir) (inside d' only fuel parts dir)
  entry {parts : List Part} (hparts : ∀ part ∈ parts, '/' ∉ part.text.toList) (path : Path) :
    Yield.Agrees d.isFile (entry d only fuel parts path) (entry d' only fuel parts path)

variable {fuel : Nat} {part : Part} {parts : List Part}

theorem onward_agrees (h : Differs d d' loc) (ih : SearchAgrees d d' only fuel)
    (hparts : ∀ part ∈ parts, '/' ∉ part.text.toList) (next : Path) :
    Yield.Agrees d.isFile (onward d only fuel parts next) (onward d' only fuel parts next) := by
  rw [onward, onward, arrived_of_differs h]
  split_ifs
  · exact .refl _
  · exact ih.inside hparts next

theorem named_agrees (h : Differs d d' loc) (ih : SearchAgrees d d' only fuel)
    (hparts : ∀ part ∈ parts, '/' ∉ part.text.toList) (path : Path) :
    Yield.Agrees d.isFile (named d only fuel path part parts)
      (named d' only fuel path part parts) := by
  rw [named, named]
  split
  · exact .refl _
  · split_ifs
    · exact onward_agrees h ih hparts path
    · exact .refl _

theorem inside_agrees (h : Written d p content d' loc) (ih : SearchAgrees d d' only fuel)
    (hparts : ∀ x ∈ part :: parts, '/' ∉ x.text.toList) (dir : Path) :
    Yield.Agrees d.isFile (inside d only (fuel + 1) (part :: parts) dir)
      (inside d' only (fuel + 1) (part :: parts) dir) := by
  have hrest := (List.forall_mem_cons.mp hparts).2
  cases hliteral : part.isLiteral with
  | true =>
    rw [inside_of_literal hliteral, inside_of_literal hliteral]
    exact literal_agrees h hrest (onward_agrees h.differs ih hrest)
  | false =>
    rw [inside_of_wildcard hliteral, inside_of_wildcard hliteral,
      showsDirectory_of_differs h.differs]
    split_ifs with hdir
    · cases hlist : d.list dir with
      | error fault =>
        have hsame : d'.list dir = d.list dir := by
          by_cases hisDir : d.isDirectory dir = true
          · rcases list_of_written h hisDir with hsame | ⟨_, _, _, _, _, _, _, hold, _⟩
            · exact hsame
            · rw [hlist] at hold
              nomatch hold
          · have hsize := size_le_of_not_isDirectory hdir hisDir
            rw [list_of_size hsize, list_of_size hsize]
        rw [hsame, hlist]
        exact .refl _
      | ok names =>
        obtain ⟨names', hnames'⟩ : ∃ names', d'.list dir = .ok names' := by
          rcases list_of_written h (isDirectory_of_list hlist) with
            hsame | ⟨_, _, _, _, _, _, _, _, hnew⟩
          · exact ⟨names, hsame.trans hlist⟩
          · exact ⟨_, hnew⟩
        rw [hnames']
        refine Yield.Agrees.append (.concat fun s _ => onward_agrees h.differs ih hrest _) ?_
        exact entries_agree h hparts hlist hnames' (ih.entry hparts)
    · exact .refl _

theorem entry_agrees (h : Differs d d' loc) (ih : SearchAgrees d d' only fuel)
    (hparts : ∀ x ∈ part :: parts, '/' ∉ x.text.toList) (path : Path) :
    Yield.Agrees d.isFile (entry d only (fuel + 1) (part :: parts) path)
      (entry d' only (fuel + 1) (part :: parts) path) := by
  obtain ⟨hpart, hrest⟩ := List.forall_mem_cons.mp hparts
  cases hrecursive : part.isRecursive with
  | false =>
    rw [entry_of_name hrecursive, entry_of_name hrecursive]
    exact named_agrees h ih hrest path
  | true =>
    rw [entry_of_recursive hrecursive, entry_of_recursive hrecursive,
      showsDirectory_of_differs h]
    have hbelow : ∀ x ∈ parts.dropWhile Part.isRecursive, '/' ∉ x.text.toList :=
      fun x hx => hrest x ((List.dropWhile_sublist _).subset hx)
    cases hcases : parts.dropWhile Part.isRecursive with
    | nil =>
      dsimp only
      split_ifs
      · exact (Yield.Agrees.refl _).append (ih.inside (by simpa using hpart) path)
      · exact .refl _
    | cons next rest =>
      rw [hcases] at hbelow
      dsimp only
      refine (named_agrees h ih (List.forall_mem_cons.mp hbelow).2 path).append ?_
      split_ifs
      · exact ih.inside (List.forall_mem_cons.mpr ⟨hpart, hbelow⟩) path
      · exact .refl _

/-- **A search finds what it found before, apart from the file that was written.** -/
theorem search_agrees (h : Written d p content d' loc) (fuel : Nat) :
    SearchAgrees d d' only fuel := by
  induction fuel with
  | zero => exact ⟨fun _ _ => by rw [inside, inside]; exact .refl _,
      fun _ _ => by rw [entry, entry]; exact .refl _⟩
  | succ fuel ih =>
    constructor
    · intro parts hparts dir
      cases parts with
      | nil => rw [inside_nil, inside_nil]; exact .refl _
      | cons part parts => exact inside_agrees h ih hparts dir
    · intro parts hparts path
      cases parts with
      | nil => rw [entry_nil, entry_nil]; exact .refl _
      | cons part parts => exact entry_agrees h.differs ih hparts path

theorem run_agrees (h : Written d p content d' loc) {text : String} {q : Query}
    (hq : query text = .ok q) : Yield.Agrees d.isFile (q.run d) (q.run d') :=
  (search_agrees h _).inside (slash_not_mem_of_query hq) q.start

end Search

end CodeNotes.Pattern
