import CodeNotes.Pattern.Search
import CodeNotes.Proofs.Disk.Change
import CodeNotes.Proofs.Project.Collect

/-!
# What a search does

The equations of a search, one for each way in which it goes on: a part without wildcards is appended
(`inside_of_literal`), any other part is compared with the names in a directory
(`inside_of_wildcard`, `entry_cons`).  Nothing is found below a path under which nothing lies
(`inside_of_barren`).
-/

namespace CodeNotes.Pattern

/-! ### Yields -/

namespace Yield

variable {a b c : Yield}

@[simp]
theorem append_empty (a : Yield) : a.append {} = a := by
  obtain ⟨paths, _ | b⟩ := a <;> simp [append]

@[simp]
theorem empty_append (a : Yield) : append {} a = a := by
  simp [append]

theorem append_of_none (h : a.blocked = none) : a.append b = ⟨a.paths ++ b.paths, b.blocked⟩ := by
  rw [append, h]

theorem append_assoc (a b c : Yield) : (a.append b).append c = a.append (b.append c) := by
  obtain ⟨paths, _ | x⟩ := a
  · obtain ⟨paths', _ | y⟩ := b <;> simp [append]
  · simp [append]

theorem concat_nil : concat [] = {} :=
  rfl

theorem concat_cons (a : Yield) (l : List Yield) : concat (a :: l) = a.append (concat l) :=
  rfl

theorem concat_append (l l' : List Yield) : concat (l ++ l') = (concat l).append (concat l') := by
  induction l with
  | nil => rw [concat_nil, empty_append, List.nil_append]
  | cons a l ih => rw [List.cons_append, concat_cons, concat_cons, ih, append_assoc]

end Yield

/-! ### Patterns taken apart -/

/-- The pieces of a pattern, each of which becomes a part. -/
def queryPieces (text : String) : List (List Char) :=
  let pieces := Path.pieces (if Path.isAbsolute ⟨text⟩ then text.toList.drop 1 else text.toList)
  let pieces := if pieces.getLast? == some [] then pieces.dropLast else pieces
  if text.isEmpty || text == "/" then [[]] else pieces

/-- A part is a piece that has been read. -/
def IsPart (piece : List Char) (part : Part) : Prop :=
  part.text = String.ofList piece ∧ tokens (String.ofList piece) = .ok part.tokens

theorem query_eq_ok_iff {text : String} {q : Query} :
    query text = .ok q ↔ (∃ ts, tokens text = .ok ts) ∧
      q.start = ⟨if Path.isAbsolute ⟨text⟩ then "/" else "."⟩ ∧
      q.directoriesOnly = (text.toList.getLast? == some '/') ∧
      List.Forall₂ IsPart (queryPieces text) q.parts := by
  have hpart : ∀ piece part, ((tokens (String.ofList piece)).map fun ts =>
      (⟨String.ofList piece, ts⟩ : Part)) = .ok part ↔ IsPart piece part := by
    rintro piece ⟨text, ts⟩
    unfold IsPart
    cases tokens (String.ofList piece) with
    | error m => simp [Except.map]
    | ok ts' => simp [Except.map, eq_comm]
  have hparts : ∀ parts, ((queryPieces text).mapM fun piece =>
      (tokens (String.ofList piece)).map fun ts => (⟨String.ofList piece, ts⟩ : Part)) = .ok parts ↔
        List.Forall₂ IsPart (queryPieces text) parts := by
    intro parts
    rw [Project.mapM_eq_ok_iff]
    simp only [hpart]
  obtain ⟨start, parts, only⟩ := q
  unfold query
  cases tokens text with
  | error m => simp [bind, Except.bind]
  | ok ts =>
    rw [← hparts]
    change Except.bind ((queryPieces text).mapM _) _ = _ ↔ _
    cases (queryPieces text).mapM fun piece =>
        (tokens (String.ofList piece)).map fun ts => (⟨String.ofList piece, ts⟩ : Part) with
    | error m => simp [Except.bind]
    | ok parts' =>
      simp only [Except.bind, pure, Except.pure, Except.ok.injEq, Query.mk.injEq]
      constructor
      · rintro ⟨rfl, rfl, rfl⟩
        exact ⟨⟨ts, rfl⟩, rfl, rfl, rfl⟩
      · rintro ⟨-, rfl, rfl, rfl⟩
        exact ⟨rfl, rfl, rfl⟩

theorem exists_piece_of_mem {pieces : List (List Char)} {parts : List Part} {part : Part}
    (h : List.Forall₂ IsPart pieces parts) (hpart : part ∈ parts) :
    ∃ piece ∈ pieces, IsPart piece part := by
  induction h with
  | nil => nomatch hpart
  | cons hhead _ ih =>
    rcases List.mem_cons.mp hpart with rfl | hpart
    · exact ⟨_, List.mem_cons_self, hhead⟩
    · obtain ⟨piece, hpiece, hp⟩ := ih hpart
      exact ⟨piece, List.mem_cons_of_mem _ hpiece, hp⟩

theorem slash_not_mem_of_query {text : String} {q : Query} (h : query text = .ok q) :
    ∀ part ∈ q.parts, '/' ∉ part.text.toList := by
  obtain ⟨-, -, -, hparts⟩ := query_eq_ok_iff.mp h
  have hpieces : ∀ piece ∈ queryPieces text, '/' ∉ piece := by
    intro piece hpiece
    unfold queryPieces at hpiece
    dsimp only at hpiece
    generalize (if Path.isAbsolute ⟨text⟩ then text.toList.drop 1 else text.toList) = cs at hpiece
    split at hpiece
    · obtain rfl := List.mem_singleton.mp hpiece
      exact List.not_mem_nil
    · split at hpiece
      · exact Path.slash_not_mem_of_mem_pieces (List.dropLast_subset _ hpiece)
      · exact Path.slash_not_mem_of_mem_pieces hpiece
  intro part hpart
  obtain ⟨piece, hpiece, htext, -⟩ := exists_piece_of_mem hparts hpart
  rw [htext, String.toList_ofList]
  exact hpieces piece hpiece

/-! ### What a search takes for a directory -/

section Shown

open Disk Node

variable {d d' : Disk} {q : Path} {l loc : Location}

theorem showsDirectory_of_locate (hl : d.locate q = .ok l) :
    showsDirectory d q = d.isDirectory q := by
  obtain ⟨-, hsize, -⟩ := walk_of_arrive (locate_eq_ok_iff.mp hl)
  rw [showsDirectory, if_pos hsize]

theorem showsDirectory_of_isDirectory (h : d.isDirectory q = true) :
    showsDirectory d q = true := by
  obtain ⟨l, hl, -⟩ := isDirectory_iff.mp h
  rw [showsDirectory_of_locate hl, h]

/-- Where the path is too long, the kind is the one that the parent tells. -/
theorem showsDirectory_iff_of_size (hsize : pathLimit ≤ q.text.utf8ByteSize) :
    showsDirectory d q = true ↔
      ((steps q.text).getLast? ≠ some "." ∧ (steps q.text).getLast? ≠ some "..") ∧
        ∃ l, walk d.root false linkLimit (d.start q) (steps q.text) = .ok ⟨l, true⟩ ∧
          d.root.HasDirectory l := by
  have hstart : (if q.isAbsolute then [] else d.here) = d.start q := rfl
  rw [showsDirectory, if_neg (Nat.not_lt.mpr hsize)]
  dsimp only
  rw [hstart]
  split_ifs with hdots
  · simp only [Bool.or_eq_true, beq_iff_eq] at hdots
    rcases hdots with hdot | hup
    · simp [hdot]
    · simp [hup]
  · simp only [Bool.or_eq_true, beq_iff_eq, not_or] at hdots
    rw [and_iff_right hdots]
    rcases walk d.root false linkLimit (d.start q) (steps q.text) with fault | ⟨l, _ | _⟩
    · simp
    · simp
    · unfold HasDirectory kindAt
      cases hl : d.root.at? l with
      | none => simp [hl]
      | some n => cases n <;> simp [hl, kind]

/-- A path that is too long cannot be listed, whatever is at it. -/
theorem list_of_size (hsize : pathLimit ≤ q.text.utf8ByteSize) :
    d.list q = .error .nameTooLong := by
  have hne : q.text ≠ "" := by
    intro hempty
    rw [hempty] at hsize
    nomatch hsize
  simp [list, node, locate, arrive, hne, hsize, Except.bind]

/-- What can be listed is a directory, and its path is not too long. -/
theorem isDirectory_of_list {names : List String} (h : d.list q = .ok names) :
    d.isDirectory q = true := by
  unfold list at h
  unfold isDirectory
  cases hnode : d.node q with
  | error fault => simp [hnode, Except.bind] at h
  | ok n => cases n <;> simp_all [Except.bind]

theorem size_le_of_not_isDirectory (h : showsDirectory d q = true) (hnot : d.isDirectory q ≠ true) :
    pathLimit ≤ q.text.utf8ByteSize := by
  by_contra hsize
  rw [showsDirectory, if_pos (Nat.not_le.mp hsize)] at h
  exact hnot h

/-- A file that is new does not change what a search takes for a directory. -/
theorem showsDirectory_of_differs (h : Differs d d' loc) (q : Path) :
    showsDirectory d' q = showsDirectory d q := by
  by_cases hsize : q.text.utf8ByteSize < pathLimit
  · rw [showsDirectory, showsDirectory, if_pos hsize, if_pos hsize, isDirectory_of_differs h]
  have hstart : d'.start q = d.start q := by rw [start, start, h.here]
  rw [Bool.eq_iff_iff, showsDirectory_iff_of_size (Nat.not_lt.mp hsize),
    showsDirectory_iff_of_size (Nat.not_lt.mp hsize), hstart]
  -- The way to the entry is the same on both, or it ends at the new file, which is no directory.
  rcases walk_of_differs h (walks d.root false linkLimit (d.start q) (steps q.text)) with
    ⟨-, hsame⟩ | ⟨hold, hnew⟩ | ⟨hold, hnew⟩
  · simp only [hsame, h.hasDirectory_iff]
  · simpa [hold, hnew] using fun _ _ => h.not_hasDirectory
  · simp [hold, hnew]

end Shown

/-! ### Going on -/

variable {disk : Disk} {only : Bool} {fuel : Nat} {part : Part} {parts : List Part} {dir path : Path}

/-- How a search goes on at a path with the parts that are left. -/
def onward (disk : Disk) (only : Bool) (fuel : Nat) (parts : List Part) (next : Path) : Yield :=
  if parts.isEmpty then arrived disk only next else inside disk only fuel parts next

/-- The names besides those in a directory that a part is compared with. -/
def specials (part : Part) : List String :=
  if part.tokens.head? == some (.char '.') then [".", ".."].filter part.matchesName else []

/-- Whether a part without wildcards can be appended to the path of a directory. -/
def admits (disk : Disk) (part : Part) (dir : Path) : Bool :=
  if part.text == "." || part.text == ".." then showsDirectory disk dir
  else disk.presentOrLink (step dir part.text)

/-- How a search goes on at an entry whose name has to match a part. -/
def named (disk : Disk) (only : Bool) (fuel : Nat) (path : Path) (part : Part) (parts : List Part) :
    Yield :=
  match path.fileName? with
  | none => {}
  | some name => if part.matchesName name then onward disk only fuel parts path else {}

/-- Only the directory `.` is left out when a name is appended. -/
theorem step_of_isAbsolute (h : dir.isAbsolute = true) (name : String) :
    step dir name = dir.push name := by
  rw [Path.isAbsolute_iff] at h
  rw [step, if_neg]
  intro hcurrent
  rw [beq_iff_eq.mp hcurrent] at h
  nomatch h

theorem inside_nil : inside disk only fuel [] dir = {} := by
  cases fuel with
  | zero => rw [inside]
  | succ fuel =>
    rw [inside]
    simp

theorem entry_nil : entry disk only fuel [] path = {} := by
  cases fuel with
  | zero => rw [entry]
  | succ fuel =>
    rw [entry]
    simp

theorem inside_of_literal (h : part.isLiteral = true) :
    inside disk only (fuel + 1) (part :: parts) dir =
      if admits disk part dir then onward disk only fuel parts (step dir part.text) else {} := by
  rw [inside, if_pos h]
  rfl

theorem inside_of_wildcard (h : part.isLiteral = false) :
    inside disk only (fuel + 1) (part :: parts) dir =
      if showsDirectory disk dir then
        match disk.list dir with
        | .error fault => ⟨[], some ⟨dir, fault⟩⟩
        | .ok names =>
          (Yield.concat ((specials part).reverse.map fun s =>
            onward disk only fuel parts (dir.push s))).append
          (Yield.concat (names.map fun name =>
            entry disk only fuel (part :: parts) (step dir name)))
      else {} := by
  rw [inside, if_neg (by simp [h])]
  rfl

theorem entry_of_name (h : part.isRecursive = false) :
    entry disk only (fuel + 1) (part :: parts) path = named disk only fuel path part parts := by
  rw [entry, if_neg (by simp [h]), named]
  cases path.fileName? with
  | none => rfl
  | some name => cases hmatch : part.matchesName name <;> simp [hmatch, onward]

theorem entry_of_recursive (h : part.isRecursive = true) :
    entry disk only (fuel + 1) (part :: parts) path =
      match parts.dropWhile Part.isRecursive with
      | [] =>
        if showsDirectory disk path then
          (Yield.single path).append (inside disk only fuel [part] path)
        else {}
      | next :: rest =>
        (named disk only fuel path next rest).append
          (if showsDirectory disk path then inside disk only fuel (part :: next :: rest) path
            else {}) := by
  rw [entry, if_pos h]
  cases hbelow : parts.dropWhile Part.isRecursive with
  | nil => cases showsDirectory disk path <;> simp
  | cons next rest =>
    simp only [named]
    cases path.fileName? with
    | none => rfl
    | some name => cases hmatch : next.matchesName name <;> simp [hmatch, onward]

/-! ### Where there is nothing to find -/

/-- Nothing lies below a path. -/
structure Barren (disk : Disk) (path : Path) : Prop where
  showsDirectory : showsDirectory disk path = false
  presentOrLink {name : String} (h : '/' ∉ name.toList) :
    disk.presentOrLink (step path name) = false

theorem inside_of_barren (h : Barren disk path) (hparts : ∀ part ∈ parts, '/' ∉ part.text.toList) :
    inside disk only fuel parts path = {} := by
  cases fuel with
  | zero => rw [inside]
  | succ fuel =>
    cases parts with
    | nil => exact inside_nil
    | cons part parts =>
      have hpart := hparts part List.mem_cons_self
      cases hliteral : part.isLiteral with
      | true => simp [inside_of_literal hliteral, admits, h.showsDirectory, h.presentOrLink hpart]
      | false => simp [inside_of_wildcard hliteral, h.showsDirectory]

theorem onward_of_barren (h : Barren disk path) (hparts : ∀ part ∈ parts, '/' ∉ part.text.toList) :
    onward disk only fuel parts path = {} ∨ onward disk only fuel parts path = .single path := by
  rw [onward, arrived, inside_of_barren h hparts]
  split_ifs
  · exact .inl rfl
  · exact .inr rfl
  · exact .inl rfl

theorem named_of_barren (h : Barren disk path) (hparts : ∀ part ∈ parts, '/' ∉ part.text.toList) :
    named disk only fuel path part parts = {} ∨
      named disk only fuel path part parts = .single path := by
  rw [named]
  split
  · exact .inl rfl
  · split_ifs
    · exact onward_of_barren h hparts
    · exact .inl rfl

/-- What is found at an entry below which nothing lies is the entry itself. -/
theorem entry_of_barren (h : Barren disk path) (hparts : ∀ part ∈ parts, '/' ∉ part.text.toList) :
    entry disk only fuel parts path = {} ∨ entry disk only fuel parts path = .single path := by
  cases fuel with
  | zero =>
    rw [entry]
    exact .inl rfl
  | succ fuel =>
    cases parts with
    | nil => exact .inl entry_nil
    | cons part parts =>
      rw [List.forall_mem_cons] at hparts
      cases hrecursive : part.isRecursive with
      | false =>
        rw [entry_of_name hrecursive]
        exact named_of_barren h hparts.2
      | true =>
        rw [entry_of_recursive hrecursive]
        simp only [h.showsDirectory, Bool.false_eq_true, if_false, Yield.append_empty]
        cases hbelow : parts.dropWhile Part.isRecursive with
        | nil => exact .inl rfl
        | cons next rest =>
          refine named_of_barren h fun p hp => hparts.2 p ?_
          exact (List.dropWhile_sublist _).subset (hbelow ▸ List.mem_cons_of_mem next hp)

/-! ### Below a file -/

section File

open Disk Node

variable {l : Location}

theorem asksForDirectory_of_locate (hroot : disk.root.HasDirectory [])
    (hl : disk.locate path = .ok l) (hfile : ¬disk.root.HasDirectory l) :
    asksForDirectory path = false := by
  by_contra hask
  have hlast : path.text.toList.getLast? = some '/' := by simpa [asksForDirectory] using hask
  obtain ⟨cs, hcs⟩ := List.getLast?_eq_some_iff.mp hlast
  have hempty : (Path.pieces path.text.toList).getLast? = some [] := by
    rw [hcs, Path.pieces_append]
    exact List.getLast?_concat
  obtain ⟨k, hleads⟩ := leads_of_locate hl
  rw [steps_eq, hempty] at hleads
  by_cases hnames : names path.text.toList = []
  · -- Nothing but separators is written, so the path leads to the root.
    have hslash : ∀ c ∈ path.text.toList, c = '/' := by
      intro c hc
      by_contra hne
      exact names_ne_nil hc hne hnames
    have habs : path.isAbsolute = true := by
      cases htext : path.text.toList with
      | nil => simp [htext] at hcs
      | cons c rest =>
        rw [Path.isAbsolute, htext, hslash c (by simp [htext])]
        rfl
    rw [hnames, start, if_pos habs] at hleads
    cases hleads with
    | nil => exact hfile hroot
  · rw [if_pos (by simp [hnames])] at hleads
    obtain ⟨k₁, l₁, -, hdot⟩ := leads_append hleads
    obtain ⟨hdir, -, rfl⟩ := hdot.of_dot
    exact hfile ⟨false, hdir⟩

theorem step_of_locate_file (hroot : disk.root.HasDirectory []) (hl : disk.locate path = .ok l)
    (hfile : ¬disk.root.HasDirectory l) (name : String) : step path name = path.push name := by
  rw [step, if_neg]
  intro hcurrent
  obtain ⟨hne, -, hwalk⟩ := walk_of_arrive (locate_eq_ok_iff.mp hl)
  obtain ⟨s, rest, hsteps⟩ := List.exists_cons_of_ne_nil
    (steps_ne_nil hne (asksForDirectory_of_locate hroot hl hfile))
  rw [hsteps] at hwalk
  have hstart := hasDirectory_of_walk_cons hwalk
  obtain ⟨k, hleads⟩ := leads_of_locate hl
  have hdots := hleads.withoutDots
  rw [filter_steps, beq_iff_eq.mp hcurrent] at hdots
  cases hdots with
  | nil => exact hfile ⟨false, hstart⟩

/-- Nothing lies below a file. -/
theorem barren_of_file (hroot : disk.root.HasDirectory []) (hl : disk.locate path = .ok l)
    (hfile : ¬disk.root.HasDirectory l) : Barren disk path where
  showsDirectory := by
    rw [showsDirectory_of_locate hl, Bool.eq_false_iff]
    intro hdir
    obtain ⟨m, hm, hmdir⟩ := isDirectory_iff.mp hdir
    rw [hl] at hm
    obtain rfl := Except.ok.inj hm
    exact hfile hmdir
  presentOrLink {name} hslash := by
    rw [step_of_locate_file hroot hl hfile]
    obtain ⟨hne, -, -⟩ := walk_of_arrive (locate_eq_ok_iff.mp hl)
    have hask := asksForDirectory_of_locate hroot hl hfile
    obtain ⟨k, hleads⟩ := leads_of_locate hl
    have hnames := leads_names hleads
    -- Whatever is appended asks for one more step, and there is none from a file.
    obtain ⟨s, hsteps⟩ : ∃ s, steps (path.push name).text = names path.text.toList ++ [s] := by
      by_cases hname : name = ""
      · subst hname
        have hlist : path.text.toList ≠ [] := by simpa using hne
        have hlast : path.text.toList.getLast hlist ≠ '/' := by
          intro heq
          simp [asksForDirectory, List.getLast?_eq_some_getLast hlist, heq] at hask
        exact ⟨".", steps_push_empty hne (names_ne_nil (List.getLast_mem hlist) hlast)⟩
      · exact ⟨name, steps_push hne hname hslash⟩
    have hstart : disk.start (path.push name) = disk.start path := by
      rw [start, start, Path.isAbsolute_push hne fun h => hslash (List.mem_of_head? h)]
    have harrive : ∀ through, (disk.arrive through (path.push name)).toOption = none := by
      intro through
      cases hr : disk.arrive through (path.push name) with
      | error fault => rfl
      | ok a =>
        obtain ⟨-, -, hwalk⟩ := walk_of_arrive hr
        rw [hsteps, hstart, walk_append_of_leads hnames (.inl (List.cons_ne_nil s [])),
          walk_barred hfile] at hwalk
        cases hwalk
    simp [presentOrLink, harrive]

theorem presentOrLink_of_size (hsize : pathLimit ≤ path.text.utf8ByteSize) :
    disk.presentOrLink path = false := by
  have harrive : ∀ through, (disk.arrive through path).toOption = none := by
    intro through
    cases hr : disk.arrive through path with
    | error fault => rfl
    | ok a =>
      obtain ⟨-, hlt, -⟩ := walk_of_arrive hr
      exact absurd hlt (Nat.not_lt.mpr hsize)
  simp [presentOrLink, harrive]

/-- Nothing lies below a path that is too long and no directory's. -/
theorem barren_of_size (hcurrent : path.components ≠ [.current])
    (hsize : pathLimit ≤ path.text.utf8ByteSize) (hdir : showsDirectory disk path = false) :
    Barren disk path where
  showsDirectory := hdir
  presentOrLink {name} hslash := by
    rw [step, if_neg (by simpa using hcurrent)]
    refine presentOrLink_of_size (Nat.le_trans hsize ?_)
    rw [Path.push, if_neg (by simpa using fun h => hslash (List.mem_of_head? h))]
    split_ifs
    · rw [String.utf8ByteSize_append]
      omega
    · rw [String.utf8ByteSize_append, String.utf8ByteSize_append]
      omega

end File

end CodeNotes.Pattern
