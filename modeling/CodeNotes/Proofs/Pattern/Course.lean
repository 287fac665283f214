import CodeNotes.Proofs.Disk.Placed
import CodeNotes.Proofs.Pattern.Search
import Mathlib.Logic.Relation

/-!
# The course of a search

A search followed turn by turn, without fuel and without an order (`Move`).  What is found lies
where such turns lead (`search_accounted`), so whatever every turn keeps holds of it.  Each turn
uses up a part or makes the path longer, and no directory is listed whose path is too long
(`Move.need_lt`).  So the fuel of a search is enough, and it is blocked iff some turns lead to a
directory that cannot be listed (`run_blocked_iff`).
-/

namespace CodeNotes.Pattern

open Disk Node

/-! ### Turns -/

/-- Where a search stands: in a directory, or at an entry whose name is still to be compared. -/
inductive Stand where
  | inside (parts : List Part) (dir : Path)
  | entry (parts : List Part) (path : Path)

namespace Stand

/-- The parts that are left. -/
def parts : Stand → List Part
  | inside parts _ => parts
  | entry parts _ => parts

/-- The path the search has come to. -/
def path : Stand → Path
  | inside _ dir => dir
  | entry _ path => path

end Stand

/-- The last name of a path is one that a part stands for. -/
def Names (part : Part) (path : Path) : Prop :=
  ∃ name, path.fileName? = some name ∧ part.matchesName name = true

/-- One turn of a search. -/
inductive Move (disk : Disk) : Stand → Stand → Prop
  /-- A part without wildcards is appended. -/
  | literal {part : Part} {parts : List Part} {dir : Path} (hliteral : part.isLiteral = true)
      (hadmits : admits disk part dir = true) :
      Move disk (.inside (part :: parts) dir) (.inside parts (step dir part.text))
  /-- A part that starts with a dot stands for the directory or its parent. -/
  | special {part : Part} {parts : List Part} {dir : Path} {names : List String} {s : String}
      (hwild : part.isLiteral = false) (hdir : showsDirectory disk dir = true)
      (hlist : disk.list dir = .ok names) (hs : s ∈ specials part) :
      Move disk (.inside (part :: parts) dir) (.inside parts (dir.push s))
  /-- An entry of the directory is looked at. -/
  | enter {part : Part} {parts : List Part} {dir : Path} {names : List String} {name : String}
      (hwild : part.isLiteral = false) (hdir : showsDirectory disk dir = true)
      (hlist : disk.list dir = .ok names) (hname : name ∈ names) :
      Move disk (.inside (part :: parts) dir) (.entry (part :: parts) (step dir name))
  /-- The name of an entry is one that the part stands for. -/
  | named {part : Part} {parts : List Part} {path : Path} (hrecursive : part.isRecursive = false)
      (hnames : Names part path) : Move disk (.entry (part :: parts) path) (.inside parts path)
  /-- No more directories are entered, and the name is one that the next part stands for. -/
  | below {part next : Part} {parts rest : List Part} {path : Path}
      (hrecursive : part.isRecursive = true)
      (hbelow : parts.dropWhile Part.isRecursive = next :: rest) (hnames : Names next path) :
      Move disk (.entry (part :: parts) path) (.inside rest path)
  /-- One more directory is entered. -/
  | deeper {part : Part} {parts : List Part} {path : Path} (hrecursive : part.isRecursive = true)
      (hdir : showsDirectory disk path = true) :
      Move disk (.entry (part :: parts) path)
        (.inside (part :: parts.dropWhile Part.isRecursive) path)

/-- What is found where a search stands. -/
inductive Finds (disk : Disk) (only : Bool) : Stand → Path → Prop
  | arrived {path : Path} (honly : only = true → showsDirectory disk path = true) :
      Finds disk only (.inside [] path) path
  | below {part : Part} {parts : List Part} {path : Path} (hrecursive : part.isRecursive = true)
      (hbelow : parts.dropWhile Part.isRecursive = []) (hdir : showsDirectory disk path = true) :
      Finds disk only (.entry (part :: parts) path) path

/-- The names in the directory a search stands in are asked for and cannot be told. -/
inductive Stuck (disk : Disk) : Stand → Blocked → Prop
  | unlisted {part : Part} {parts : List Part} {dir : Path} {fault : Fault}
      (hwild : part.isLiteral = false) (hdir : showsDirectory disk dir = true)
      (hlist : disk.list dir = .error fault) :
      Stuck disk (.inside (part :: parts) dir) ⟨dir, fault⟩

/-- The turns of a search lead from one stand to another. -/
def Reached (disk : Disk) : Stand → Stand → Prop :=
  Relation.ReflTransGen (Move disk)

/-- A search meets a directory that cannot be listed. -/
def Query.Meets (q : Query) (disk : Disk) (b : Blocked) : Prop :=
  ∃ t, Reached disk (.inside q.parts q.start) t ∧ Stuck disk t b

/-- What holds where a search starts and is kept by its turns holds wherever they lead. -/
theorem Reached.invariant {disk : Disk} {P : Stand → Prop} {s t : Stand} (h : Reached disk s t)
    (hs : P s) (hmove : ∀ s t, Move disk s t → P s → P t) : P t := by
  induction h with
  | refl => exact hs
  | tail _ hturn ih => exact hmove _ _ hturn ih

/-! ### Everything is accounted for -/

/-- What a search brings has a reason. -/
structure Yield.From (found : Path → Prop) (stuck : Blocked → Prop) (y : Yield) : Prop where
  paths : ∀ p ∈ y.paths, found p
  blocked : ∀ b, y.blocked = some b → stuck b

namespace Yield.From

variable {found found' : Path → Prop} {stuck stuck' : Blocked → Prop} {a b y : Yield}

theorem empty : From found stuck {} :=
  ⟨by simp, by simp⟩

theorem single {p : Path} (h : found p) : From found stuck (.single p) :=
  ⟨by simpa [Yield.single] using h, by simp [Yield.single]⟩

theorem append (ha : From found stuck a) (hb : From found stuck b) :
    From found stuck (a.append b) := by
  cases hblocked : a.blocked with
  | some x =>
    rw [Yield.append, hblocked]
    exact ha
  | none =>
    rw [append_of_none hblocked]
    exact ⟨List.forall_mem_append.mpr ⟨ha.paths, hb.paths⟩, hb.blocked⟩

theorem concat {α : Type} {f : α → Yield} {l : List α} (h : ∀ x ∈ l, From found stuck (f x)) :
    From found stuck (Yield.concat (l.map f)) := by
  induction l with
  | nil => exact empty
  | cons x l ih =>
    rw [List.forall_mem_cons] at h
    exact h.1.append (ih h.2)

theorem imp (h : From found stuck y) (hfound : ∀ p, found p → found' p)
    (hstuck : ∀ b, stuck b → stuck' b) : From found' stuck' y :=
  ⟨fun p hp => hfound p (h.paths p hp), fun b hb => hstuck b (h.blocked b hb)⟩

end Yield.From

variable {disk : Disk} {only : Bool} {fuel : Nat} {s t : Stand}

/-- What a search brings from where it stands. -/
def search (disk : Disk) (only : Bool) (fuel : Nat) : Stand → Yield
  | .inside parts dir => onward disk only fuel parts dir
  | .entry parts path => entry disk only fuel parts path

theorem search_inside_cons (part : Part) (parts : List Part) (dir : Path) :
    search disk only fuel (.inside (part :: parts) dir)
      = inside disk only fuel (part :: parts) dir := by
  simp [search, onward]

/-- What a search brings lies where turns lead from where it stands. -/
def Accounted (disk : Disk) (only : Bool) (s : Stand) : Yield → Prop :=
  Yield.From (fun p => ∃ t, Reached disk s t ∧ Finds disk only t p)
    fun b => ∃ t, Reached disk s t ∧ Stuck disk t b

theorem Accounted.move {y : Yield} (hy : Accounted disk only t y) (h : Move disk s t) :
    Accounted disk only s y := by
  refine hy.imp ?_ ?_
  · rintro p ⟨u, hu, hp⟩
    exact ⟨u, hu.head h, hp⟩
  · rintro b ⟨u, hu, hb⟩
    exact ⟨u, hu.head h, hb⟩

theorem named_accounted {part : Part} {parts : List Part} {path : Path}
    (h : Names part path → Accounted disk only s (onward disk only fuel parts path)) :
    Accounted disk only s (named disk only fuel path part parts) := by
  rw [named]
  split
  · exact .empty
  · next name hname =>
    split_ifs with hmatch
    · exact h ⟨name, hname, hmatch⟩
    · exact .empty

theorem inside_accounted (ih : ∀ s, Accounted disk only s (search disk only fuel s)) (part : Part)
    (parts : List Part) (dir : Path) : Accounted disk only (.inside (part :: parts) dir)
      (inside disk only (fuel + 1) (part :: parts) dir) := by
  cases hliteral : part.isLiteral with
  | true =>
    rw [inside_of_literal hliteral]
    split_ifs with hadmits
    · exact (ih _).move (.literal hliteral hadmits)
    · exact .empty
  | false =>
    rw [inside_of_wildcard hliteral]
    split_ifs with hdir
    · cases hlist : disk.list dir with
      | error fault =>
        refine ⟨by simp, fun b hb => ?_⟩
        obtain rfl := Option.some.inj hb
        exact ⟨_, .refl, .unlisted hliteral hdir hlist⟩
      | ok names =>
        refine .append (.concat fun s hs => ?_) (.concat fun name hname => ?_)
        · exact (ih _).move (.special hliteral hdir hlist (List.mem_reverse.mp hs))
        · exact (ih _).move (.enter hliteral hdir hlist hname)
    · exact .empty

theorem entry_accounted (ih : ∀ s, Accounted disk only s (search disk only fuel s)) (part : Part)
    (parts : List Part) (path : Path) : Accounted disk only (.entry (part :: parts) path)
      (entry disk only (fuel + 1) (part :: parts) path) := by
  cases hrecursive : part.isRecursive with
  | false =>
    rw [entry_of_name hrecursive]
    exact named_accounted fun hnames => (ih _).move (.named hrecursive hnames)
  | true =>
    have hdeeper (hdir : showsDirectory disk path = true) :
        Accounted disk only (.entry (part :: parts) path)
          (inside disk only fuel (part :: parts.dropWhile Part.isRecursive) path) := by
      rw [← search_inside_cons]
      exact (ih _).move (.deeper hrecursive hdir)
    rw [entry_of_recursive hrecursive]
    cases hbelow : parts.dropWhile Part.isRecursive with
    | nil =>
      rw [hbelow] at hdeeper
      dsimp only
      split_ifs with hdir
      · exact .append (.single ⟨_, .refl, .below hrecursive hbelow hdir⟩) (hdeeper hdir)
      · exact .empty
    | cons next rest =>
      rw [hbelow] at hdeeper
      dsimp only
      refine .append (named_accounted fun hnames => ?_) ?_
      · exact (ih _).move (.below hrecursive hbelow hnames)
      · split_ifs with hdir
        · exact hdeeper hdir
        · exact .empty

theorem arrived_accounted (path : Path) :
    Accounted disk only (.inside [] path) (arrived disk only path) := by
  rw [arrived]
  split_ifs with honly
  · exact .empty
  · refine .single ⟨_, .refl, .arrived fun h => ?_⟩
    simpa [h] using honly

/-- **Whatever a search brings lies where its turns lead.** -/
theorem search_accounted (fuel : Nat) (s : Stand) :
    Accounted disk only s (search disk only fuel s) := by
  induction fuel generalizing s with
  | zero =>
    cases s with
    | inside parts dir =>
      cases parts with
      | nil => exact arrived_accounted dir
      | cons part parts =>
        rw [search_inside_cons, inside]
        exact .empty
    | entry parts path =>
      rw [search, entry]
      exact .empty
  | succ fuel ih =>
    cases s with
    | inside parts dir =>
      cases parts with
      | nil => exact arrived_accounted dir
      | cons part parts =>
        rw [search_inside_cons]
        exact inside_accounted ih part parts dir
    | entry parts path =>
      cases parts with
      | nil =>
        rw [search, entry_nil]
        exact .empty
      | cons part parts => exact entry_accounted ih part parts path

theorem run_accounted (q : Query) : Accounted disk q.directoriesOnly (.inside q.parts q.start)
    (q.run disk) := by
  rw [Query.run]
  cases hparts : q.parts with
  | nil =>
    rw [inside_nil]
    exact .empty
  | cons part parts =>
    rw [← search_inside_cons]
    exact search_accounted _ _

/-! ### The fuel is enough -/

theorem isName_of_mem_list (hsound : disk.root.Sound) {dir : Path} {names : List String}
    {name : String} (hlist : disk.list dir = .ok names) (hname : name ∈ names) : IsName name := by
  obtain ⟨l, hl, locked, hkind⟩ := isDirectory_iff.mp (isDirectory_of_list hlist)
  obtain ⟨entries, hat⟩ := at?_of_kindAt_directory hkind
  have hnames : disk.root.namesAt l = some (Node.directory entries locked).names := by
    rw [namesAt, hat]
    rfl
  rw [list_eq hl hkind hnames] at hlist
  split_ifs at hlist
  obtain rfl := Except.ok.inj hlist
  exact (hsound.of_namesAt hnames).2 name (List.mem_mergeSort.mp hname)

/-- The bytes that a search has put into a path; the directory `.` is left out. -/
def extent (p : Path) : Nat :=
  if p.components = [.current] then 0 else p.text.utf8ByteSize

theorem extent_of_current {p : Path} (h : p.components = [.current]) : extent p = 0 :=
  if_pos h

theorem extent_push {p : Path} {x : String} (hp : p.text ≠ "") (hx : '/' ∉ x.toList)
    (hcurrent : p.components ≠ [.current]) : extent p + x.utf8ByteSize ≤ extent (p.push x) := by
  have hhead : x.toList.head? ≠ some '/' := fun h => hx (List.mem_of_head? h)
  have hpush : (p.push x).components ≠ [.current] := by
    rw [Path.components_push hp hhead]
    obtain ⟨hempty, -⟩ | ⟨c, hc⟩ := Path.components_cases p
    · exact absurd (by simpa using hempty) hp
    · intro heq
      rcases List.append_eq_singleton_iff.mp heq with ⟨hnil, -⟩ | ⟨hall, -⟩
      · rw [hc] at hnil
        nomatch hnil
      · exact hcurrent hall
  rw [extent, extent, if_neg hcurrent, if_neg hpush, Path.push, if_neg (by simpa using hhead)]
  split_ifs
  · exact Nat.le_of_eq (String.utf8ByteSize_append ..).symm
  · rw [String.utf8ByteSize_append, String.utf8ByteSize_append]
    omega

theorem extent_le_push {p : Path} {x : String} (hp : p.text ≠ "") (hx : '/' ∉ x.toList) :
    extent p ≤ extent (p.push x) := by
  by_cases hcurrent : p.components = [.current]
  · rw [extent_of_current hcurrent]
    exact Nat.zero_le _
  · have hpush := extent_push hp hx hcurrent
    omega

theorem extent_le_step {p : Path} {x : String} (hp : p.text ≠ "") (hx : '/' ∉ x.toList) :
    extent p ≤ extent (step p x) := by
  rw [step]
  split_ifs with hcurrent
  · rw [extent_of_current (beq_iff_eq.mp hcurrent)]
    exact Nat.zero_le _
  · exact extent_le_push hp hx

/-- The name of an entry makes the path longer. -/
theorem extent_lt_step {p : Path} {x : String} (hp : p.text ≠ "") (hx : IsName x) :
    extent p < extent (step p x) := by
  have hsize : 0 < x.utf8ByteSize := by
    rw [Nat.pos_iff_ne_zero, ne_eq, String.utf8ByteSize_eq_zero_iff]
    exact hx.ne_empty
  rw [step]
  split_ifs with hcurrent
  · have hname : (⟨x⟩ : Path).components ≠ [.current] := by
      have hinner := Path.inner?_name hx.ne_empty hx.ne_dot hx.ne_up
      rw [Path.components_of_pieces (Path.pieces_of_not_mem hx.no_slash) (by simp [hinner])]
      simp [hinner]
    rw [extent_of_current (beq_iff_eq.mp hcurrent), extent, if_neg hname]
    exact hsize
  · have hpush := extent_push hp hx.no_slash (by simpa using hcurrent)
    omega

theorem extent_lt_of_list {p : Path} {names : List String} (h : disk.list p = .ok names) :
    extent p < pathLimit := by
  obtain ⟨l, hl, -⟩ := isDirectory_iff.mp (isDirectory_of_list h)
  obtain ⟨-, hlt, -⟩ := walk_of_arrive (locate_eq_ok_iff.mp hl)
  rw [extent]
  split_ifs
  · decide
  · exact hlt

/-- How many turns are left at most. -/
def Stand.need : Stand → Nat
  | inside parts dir => parts.length + 2 * (pathLimit - extent dir)
  | entry parts path => parts.length + 2 * (pathLimit - extent path) + 1

/-- A stand that a search can come to. -/
structure Stand.Fit (s : Stand) : Prop where
  written : s.path.text ≠ ""
  slash : ∀ part ∈ s.parts, '/' ∉ part.text.toList

theorem slash_not_mem_of_mem_specials {part : Part} {x : String} (h : x ∈ specials part) :
    '/' ∉ x.toList := by
  unfold specials at h
  split_ifs at h
  · have hx : x = "." ∨ x = ".." := by simpa using (List.mem_filter.mp h).1
    rcases hx with rfl | rfl <;> decide
  · nomatch h

theorem Move.parts_subset (h : Move disk s t) : t.parts ⊆ s.parts := by
  cases h with
  | literal => exact List.subset_cons_self _ _
  | special => exact List.subset_cons_self _ _
  | enter => exact List.Subset.refl _
  | named => exact List.subset_cons_self _ _
  | @below part next parts rest path _ hbelow =>
    have hsub : next :: rest ⊆ parts := hbelow ▸ (List.dropWhile_sublist _).subset
    exact fun x hx => List.mem_cons_of_mem part (hsub (List.mem_cons_of_mem next hx))
  | @deeper part parts path =>
    exact List.cons_subset_cons part (List.dropWhile_sublist _).subset

theorem presentOrLink_empty : disk.presentOrLink ⟨""⟩ = false := by
  simp [presentOrLink, arrive, Except.toOption]

/-- A turn leaves the path as it is, appends a text without separators to it, or starts a path in
the current directory. -/
theorem Move.path_cases (hsound : disk.root.Sound)
    (hslash : ∀ part ∈ s.parts, '/' ∉ part.text.toList) (h : Move disk s t) :
    t.path = s.path ∨ (∃ x, '/' ∉ x.toList ∧ t.path = s.path.push x) ∨
      s.path.components = [.current] ∧ t.path.text ≠ "" := by
  have hstep : ∀ {p : Path} {x : String}, '/' ∉ x.toList → (p.components = [.current] → x ≠ "") →
      (∃ y, '/' ∉ y.toList ∧ step p x = p.push y) ∨
        p.components = [.current] ∧ (step p x).text ≠ "" := by
    intro p x hx hne
    by_cases hcurrent : p.components = [.current]
    · refine .inr ⟨hcurrent, ?_⟩
      rw [step, if_pos (by simp [hcurrent])]
      exact hne hcurrent
    · exact .inl ⟨x, hx, if_neg (by simpa using hcurrent)⟩
  cases h with
  | @literal part parts dir hliteral hadmits =>
    refine .inr (hstep (hslash part List.mem_cons_self) ?_)
    -- Nothing is at the empty path.
    intro hcurrent hempty
    simp [admits, step, hcurrent, hempty, presentOrLink_empty] at hadmits
  | special hwild hdir hlist hs =>
    exact .inr (.inl ⟨_, slash_not_mem_of_mem_specials hs, rfl⟩)
  | enter hwild hdir hlist hname =>
    have hisName := isName_of_mem_list hsound hlist hname
    exact .inr (hstep hisName.no_slash fun _ => hisName.ne_empty)
  | named => exact .inl rfl
  | below => exact .inl rfl
  | deeper => exact .inl rfl

theorem Stand.Fit.move (hsound : disk.root.Sound) (hs : s.Fit) (h : Move disk s t) : t.Fit where
  written := by
    rcases h.path_cases hsound hs.slash with heq | ⟨x, hx, heq⟩ | ⟨-, hne⟩
    · rw [heq]
      exact hs.written
    · rw [heq]
      exact Path.text_push_ne_empty hs.written fun hhead => hx (List.mem_of_head? hhead)
    · exact hne
  slash part hpart := hs.slash part (h.parts_subset hpart)

/-- **Each turn uses up a part or makes the path longer.** -/
theorem Move.need_lt (hsound : disk.root.Sound) (hs : s.Fit) (h : Move disk s t) :
    t.need < s.need := by
  cases h with
  | @literal part parts dir =>
    have hle := extent_le_step hs.written (hs.slash part List.mem_cons_self)
    simp only [Stand.need, Stand.path, List.length_cons] at hle ⊢
    omega
  | special hwild hdir hlist hx =>
    have hle := extent_le_push hs.written (slash_not_mem_of_mem_specials hx)
    simp only [Stand.need, Stand.path, List.length_cons] at hle ⊢
    omega
  | enter hwild hdir hlist hname =>
    -- No part is used up, but the path gets longer, and it was not too long before.
    have hlt := extent_lt_step hs.written (isName_of_mem_list hsound hlist hname)
    have hlimit := extent_lt_of_list hlist
    simp only [Stand.need, Stand.path] at hlt ⊢
    omega
  | named =>
    simp only [Stand.need, List.length_cons]
    omega
  | @below part next parts rest path _ hbelow =>
    have hle := (List.dropWhile_sublist (l := parts) Part.isRecursive).length_le
    rw [hbelow, List.length_cons] at hle
    simp only [Stand.need, List.length_cons]
    omega
  | @deeper part parts path =>
    have hle := (List.dropWhile_sublist (l := parts) Part.isRecursive).length_le
    simp only [Stand.need, List.length_cons]
    omega

/-! ### Where a search is blocked -/

theorem Yield.blocked_append_eq_none_iff {a b : Yield} :
    (a.append b).blocked = none ↔ a.blocked = none ∧ b.blocked = none := by
  cases h : a.blocked with
  | none => simp [append_of_none h]
  | some x => simp [append, h]

theorem Yield.blocked_concat_eq_none_iff {l : List Yield} :
    (Yield.concat l).blocked = none ↔ ∀ y ∈ l, y.blocked = none := by
  induction l with
  | nil => simp [concat_nil]
  | cons y l ih => rw [concat_cons, blocked_append_eq_none_iff, ih, List.forall_mem_cons]

theorem named_of_names {part : Part} {parts : List Part} {path : Path} (h : Names part path) :
    named disk only fuel path part parts = onward disk only fuel parts path := by
  obtain ⟨name, hname, hmatch⟩ := h
  rw [named, hname]
  exact if_pos hmatch

/-- A search that is not blocked is not blocked after any of its turns. -/
theorem blocked_of_move (h : Move disk s t) (hs : (search disk only (fuel + 1) s).blocked = none) :
    (search disk only fuel t).blocked = none := by
  cases h with
  | literal hliteral hadmits =>
    rw [search_inside_cons, inside_of_literal hliteral, if_pos hadmits] at hs
    exact hs
  | special hwild hdir hlist hx =>
    rw [search_inside_cons, inside_of_wildcard hwild, if_pos hdir, hlist] at hs
    have hspecials := (Yield.blocked_append_eq_none_iff.mp hs).1
    rw [Yield.blocked_concat_eq_none_iff, List.forall_mem_map] at hspecials
    exact hspecials _ (List.mem_reverse.mpr hx)
  | enter hwild hdir hlist hname =>
    rw [search_inside_cons, inside_of_wildcard hwild, if_pos hdir, hlist] at hs
    have hentries := (Yield.blocked_append_eq_none_iff.mp hs).2
    rw [Yield.blocked_concat_eq_none_iff, List.forall_mem_map] at hentries
    exact hentries _ hname
  | named hrecursive hnames =>
    rw [search, entry_of_name hrecursive, named_of_names hnames] at hs
    exact hs
  | below hrecursive hbelow hnames =>
    rw [search, entry_of_recursive hrecursive, hbelow] at hs
    dsimp only at hs
    rw [named_of_names hnames] at hs
    exact (Yield.blocked_append_eq_none_iff.mp hs).1
  | @deeper part parts path hrecursive hdir =>
    rw [search, entry_of_recursive hrecursive] at hs
    rw [search_inside_cons]
    cases hbelow : parts.dropWhile Part.isRecursive <;>
      simp only [hbelow, hdir, if_true] at hs <;>
      exact (Yield.blocked_append_eq_none_iff.mp hs).2

theorem blocked_of_stuck {b : Blocked} (h : Stuck disk s b) :
    (search disk only (fuel + 1) s).blocked = some b := by
  cases h with
  | unlisted hwild hdir hlist =>
    rw [search_inside_cons, inside_of_wildcard hwild, if_pos hdir, hlist]

theorem Stuck.need_pos {b : Blocked} (h : Stuck disk s b) : 0 < s.need := by
  cases h with
  | unlisted =>
    simp only [Stand.need, List.length_cons]
    omega

/-- A search with enough fuel is blocked if turns lead to a directory that cannot be listed. -/
theorem blocked_of_reached (hsound : disk.root.Sound) {b : Blocked} (h : Reached disk s t)
    (ht : Stuck disk t b) (hs : s.Fit) (hfuel : s.need ≤ fuel) :
    (search disk only fuel s).blocked ≠ none := by
  -- The first turn uses up fuel, so the induction is on the turns that are still to come.
  induction h using Relation.ReflTransGen.head_induction_on generalizing fuel with
  | refl =>
    obtain ⟨fuel, rfl⟩ := Nat.exists_eq_succ_of_ne_zero (Nat.pos_iff_ne_zero.mp
      (Nat.lt_of_lt_of_le ht.need_pos hfuel))
    rw [blocked_of_stuck ht]
    exact Option.some_ne_none b
  | head hmove _ ih =>
    have hneed := hmove.need_lt hsound hs
    obtain ⟨fuel, rfl⟩ : ∃ f, fuel = f + 1 := ⟨fuel - 1, by omega⟩
    exact fun hnone => ih (hs.move hsound hmove) (by omega) (blocked_of_move hmove hnone)

theorem fit_of_query {text : String} {q : Query} (hq : query text = .ok q) :
    (Stand.inside q.parts q.start).Fit where
  written := by
    obtain ⟨-, hstart, -⟩ := query_eq_ok_iff.mp hq
    change q.start.text ≠ ""
    rw [hstart]
    split_ifs <;> simp
  slash := slash_not_mem_of_query hq

/-- **A search is blocked iff it meets a directory that cannot be listed.** -/
theorem run_blocked_iff (hsound : disk.root.Sound) {text : String} {q : Query}
    (hq : query text = .ok q) : (q.run disk).blocked ≠ none ↔ ∃ b, q.Meets disk b := by
  constructor
  · intro h
    obtain ⟨b, hb⟩ := Option.ne_none_iff_exists'.mp h
    exact ⟨b, (run_accounted q).blocked b hb⟩
  · rintro ⟨b, t, ht, hstuck⟩
    have hblocked : (search disk q.directoriesOnly (q.parts.length + 2 * pathLimit)
        (.inside q.parts q.start)).blocked ≠ none := by
      refine blocked_of_reached hsound ht hstuck (fit_of_query hq) ?_
      simp only [Stand.need]
      omega
    rw [Query.run]
    cases hparts : q.parts with
    | nil =>
      rw [hparts, search, onward, if_pos List.isEmpty_nil, arrived] at hblocked
      split_ifs at hblocked <;> exact absurd rfl hblocked
    | cons part parts =>
      rw [hparts, search_inside_cons] at hblocked
      exact hblocked

end CodeNotes.Pattern
