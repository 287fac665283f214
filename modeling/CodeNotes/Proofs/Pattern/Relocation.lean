import CodeNotes.Proofs.Pattern.Descent

/-!
# Searching a tree that was moved

The same tree is placed at two directories, on two disks or on one.  Paths are *twins* if they are
the paths of the two places with the same appended (`Twin`).  A search below one place and a search
below the other find twins, one by one (`search_twins`): at twins the two disks tell the same, and
what a search appends to one path it appends to the other.

Fuel plays no part as long as there is enough of it (`Enough`), and neither does the length of the
paths as long as they fit.
-/

namespace CodeNotes.Pattern

open Disk Node

/-- The same tree is placed at two directories, and the paths of what is in it are not too long,
even with so many steps `.` in them. -/
structure Moved (d₁ d₂ : Disk) (dir₁ dir₂ : Path) (tree : Node) (dots : Nat) : Prop where
  first : Placed d₁ dir₁ tree
  second : Placed d₂ dir₂ tree
  fits_first : Fits (weight (placeOf dir₁)) tree dots
  fits_second : Fits (weight (placeOf dir₂)) tree dots

/-- Two paths with the same appended to the path of either place. -/
def Twin (tree : Node) (dots : Nat) (dir₁ dir₂ p₁ p₂ : Path) : Prop :=
  ∃ r l n, Reaches tree r l n ∧ n ≤ dots ∧ p₁ = below (placeOf dir₁) r ∧ p₂ = below (placeOf dir₂) r

/-! ### Yields of twins -/

/-- Two searches come to their end and find related paths, one by one. -/
structure Yield.Match (R : Path → Path → Prop) (a b : Yield) : Prop where
  blocked_left : a.blocked = none
  blocked_right : b.blocked = none
  paths : List.Forall₂ R a.paths b.paths

namespace Yield.Match

variable {R : Path → Path → Prop} {a b a' b' : Yield}

theorem empty : Match R {} {} :=
  ⟨rfl, rfl, .nil⟩

theorem single {p q : Path} (h : R p q) : Match R (.single p) (.single q) :=
  ⟨rfl, rfl, .cons h .nil⟩

theorem append (h : Match R a b) (h' : Match R a' b') : Match R (a.append a') (b.append b') := by
  rw [append_of_none h.blocked_left, append_of_none h.blocked_right]
  exact ⟨h'.blocked_left, h'.blocked_right, List.rel_append h.paths h'.paths⟩

theorem concat {α : Type} {f g : α → Yield} {l : List α} (h : ∀ x ∈ l, Match R (f x) (g x)) :
    Match R (Yield.concat (l.map f)) (Yield.concat (l.map g)) := by
  induction l with
  | nil => exact empty
  | cons x l ih =>
    rw [List.forall_mem_cons] at h
    exact h.1.append (ih h.2)

end Yield.Match

/-! ### Parts and fuel -/

/-- A part of a pattern that does not lead out of a tree. -/
structure Tame (part : Part) : Prop where
  no_slash : '/' ∉ part.text.toList
  ne_up : part.text ≠ ".."
  specials_eq (h : part.isLiteral = false) : specials part = []

/-- The number of steps `.` that parts ask for. -/
def dotsOf (parts : List Part) : Nat :=
  parts.countP fun part => part.text == "."

/-- There is fuel for all that lies below a location: so much, and two turns for each name. -/
def Enough (tree : Node) (l : Location) (turns fuel : Nat) : Prop :=
  ∀ m, tree.at? (l ++ m) ≠ none → turns + 2 * m.length ≤ fuel

section Fuel

variable {tree : Node} {l : Location} {turns turns' fuel : Nat} {s : String}

theorem Enough.le (h : Enough tree l turns fuel) (hl : tree.at? l ≠ none) : turns ≤ fuel := by
  have hle := h [] (by rwa [List.append_nil])
  simpa using hle

theorem Enough.stay (h : Enough tree l turns (fuel + 1)) (hturns : turns' + 1 ≤ turns) :
    Enough tree l turns' fuel := by
  intro m hm
  have hle := h m hm
  omega

theorem Enough.enter (h : Enough tree l turns (fuel + 1)) (hturns : turns' ≤ turns + 1) :
    Enough tree (l ++ [s]) turns' fuel := by
  intro m hm
  rw [List.append_assoc] at hm
  have hle := h ([s] ++ m) hm
  simp only [List.length_append, List.length_singleton] at hle
  omega

theorem enough_of_fits {d : Disk} {dir : Path} {dots : Nat} (h : Placed d dir tree)
    (hfits : Fits (weight (placeOf dir)) tree dots)
    (hfuel : turns + 2 * pathLimit ≤ fuel + (placeOf dir).length) : Enough tree [] turns fuel := by
  intro m hm
  rw [List.nil_append] at hm
  have hlt := hfits.path hm
  have hplace := two_mul_length_le_weight h.named
  have hlength := two_mul_length_le_weight (named_of_at? h.sound_tree hm)
  omega

end Fuel

/-! ### Two searches side by side -/

section Search

variable {d₁ d₂ : Disk} {dir₁ dir₂ : Path} {tree : Node} {dots : Nat} {only : Bool}
  {part : Part} {parts : List Part} {r : String} {l : Location} {n turns f₁ f₂ : Nat}

/-- What two searches have in common when they stand at twins with the same parts before them: the
parts are tame, the twins have been reached, and there are fuel and room for the rest. -/
structure Ready (tree : Node) (dots : Nat) (parts : List Part) (r : String) (l : Location)
    (n turns f₁ f₂ : Nat) : Prop where
  tame : ∀ part ∈ parts, Tame part
  reaches : Reaches tree r l n
  room : n + dotsOf parts ≤ dots
  enough₁ : Enough tree l turns f₁
  enough₂ : Enough tree l turns f₂

namespace Ready

theorem n_le (h : Ready tree dots parts r l n turns f₁ f₂) : n ≤ dots :=
  Nat.le_trans (Nat.le_add_right _ _) h.room

theorem twin (h : Ready tree dots parts r l n turns f₁ f₂) (dir₁ dir₂ : Path) :
    Twin tree dots dir₁ dir₂ (below (placeOf dir₁) r) (below (placeOf dir₂) r) :=
  ⟨r, l, n, h.reaches, h.n_le, rfl, rfl⟩

theorem rest_room (h : Ready tree dots (part :: parts) r l n turns f₁ f₂) :
    n + dotsOf parts ≤ dots := by
  have hroom := h.room
  rw [dotsOf, List.countP_cons] at hroom
  rw [dotsOf]
  omega

theorem rest_tame (h : Ready tree dots (part :: parts) r l n turns f₁ f₂) :
    ∀ x ∈ parts, Tame x :=
  (List.forall_mem_cons.mp h.tame).2

/-- The next name is entered. -/
theorem enter (h : Ready tree dots (part :: parts) r l n (parts.length + 1) (f₁ + 1) (f₂ + 1))
    {s : String} (hs : tree.at? (l ++ [s]) ≠ none) :
    Ready tree dots parts (extend r s) (l ++ [s]) n parts.length f₁ f₂ where
  tame := h.rest_tame
  reaches := h.reaches.name hs
  room := h.rest_room
  enough₁ := h.enough₁.enter (by omega)
  enough₂ := h.enough₂.enter (by omega)

/-- A step `.` stays where it is. -/
theorem dot (h : Ready tree dots (part :: parts) r l n (parts.length + 1) (f₁ + 1) (f₂ + 1))
    (hpart : part.text = ".") (hdir : tree.HasDirectory l) :
    Ready tree dots parts (extend r ".") l (n + 1) parts.length f₁ f₂ where
  tame := h.rest_tame
  reaches := h.reaches.dot hdir
  room := by
    have hroom := h.room
    rw [dotsOf, List.countP_cons, if_pos (by simp [hpart])] at hroom
    rw [dotsOf]
    omega
  enough₁ := h.enough₁.stay (Nat.le_refl _)
  enough₂ := h.enough₂.stay (Nat.le_refl _)

/-- So does an empty part. -/
theorem slash (h : Ready tree dots (part :: parts) r l n (parts.length + 1) (f₁ + 1) (f₂ + 1))
    (hdir : tree.HasDirectory l) :
    Ready tree dots parts (extend r "") l n parts.length f₁ f₂ where
  tame := h.rest_tame
  reaches := h.reaches.slash hdir
  room := h.rest_room
  enough₁ := h.enough₁.stay (Nat.le_refl _)
  enough₂ := h.enough₂.stay (Nat.le_refl _)

/-- An entry of the directory is looked at. -/
theorem toEntry (h : Ready tree dots parts r l n parts.length (f₁ + 1) (f₂ + 1)) {s : String}
    (hs : tree.at? (l ++ [s]) ≠ none) :
    Ready tree dots parts (extend r s) (l ++ [s]) n (parts.length + 1) f₁ f₂ where
  tame := h.tame
  reaches := h.reaches.name hs
  room := h.room
  enough₁ := h.enough₁.enter (Nat.le_refl _)
  enough₂ := h.enough₂.enter (Nat.le_refl _)

/-- The search goes on from an entry with some of the parts. -/
theorem ofEntry {parts' : List Part}
    (h : Ready tree dots parts r l n (parts.length + 1) (f₁ + 1) (f₂ + 1))
    (hparts : parts'.Sublist parts) : Ready tree dots parts' r l n parts'.length f₁ f₂ where
  tame x hx := h.tame x (hparts.subset hx)
  reaches := h.reaches
  room := Nat.le_trans (Nat.add_le_add_left (hparts.countP_le) n) h.room
  enough₁ := h.enough₁.stay (Nat.add_le_add_right hparts.length_le 1)
  enough₂ := h.enough₂.stay (Nat.add_le_add_right hparts.length_le 1)

end Ready

/-- Searches below the two places find twins, whatever fuel the second one has. -/
structure SearchTwins (d₁ d₂ : Disk) (dir₁ dir₂ : Path) (tree : Node) (dots : Nat) (only : Bool)
    (f₁ : Nat) : Prop where
  inside {f₂ : Nat} {parts : List Part} {r : String} {l : Location} {n : Nat}
    (h : Ready tree dots parts r l n parts.length f₁ f₂) :
    Yield.Match (Twin tree dots dir₁ dir₂) (inside d₁ only f₁ parts (below (placeOf dir₁) r))
      (inside d₂ only f₂ parts (below (placeOf dir₂) r))
  entry {f₂ : Nat} {parts : List Part} {r : String} {l : Location} {n : Nat} {s : String}
    (h : Ready tree dots parts r l n (parts.length + 1) f₁ f₂)
    (hname₁ : (below (placeOf dir₁) r).fileName? = some s)
    (hname₂ : (below (placeOf dir₂) r).fileName? = some s) :
    Yield.Match (Twin tree dots dir₁ dir₂) (entry d₁ only f₁ parts (below (placeOf dir₁) r))
      (entry d₂ only f₂ parts (below (placeOf dir₂) r))

variable (hmoved : Moved d₁ d₂ dir₁ dir₂ tree dots)
include hmoved

theorem showsDirectory_first (h : Ready tree dots parts r l n turns f₁ f₂) :
    showsDirectory d₁ (below (placeOf dir₁) r) = true ↔ tree.HasDirectory l := by
  rw [showsDirectory_of_locate (hmoved.first.locate_below hmoved.fits_first h.reaches h.n_le),
    hmoved.first.isDirectory_below hmoved.fits_first h.reaches h.n_le]

theorem showsDirectory_twins (h : Ready tree dots parts r l n turns f₁ f₂) :
    showsDirectory d₁ (below (placeOf dir₁) r) = showsDirectory d₂ (below (placeOf dir₂) r) := by
  rw [Bool.eq_iff_iff, showsDirectory_first hmoved h,
    showsDirectory_of_locate (hmoved.second.locate_below hmoved.fits_second h.reaches h.n_le),
    hmoved.second.isDirectory_below hmoved.fits_second h.reaches h.n_le]

theorem onward_twins (ih : SearchTwins d₁ d₂ dir₁ dir₂ tree dots only f₁)
    (h : Ready tree dots parts r l n parts.length f₁ f₂) :
    Yield.Match (Twin tree dots dir₁ dir₂) (onward d₁ only f₁ parts (below (placeOf dir₁) r))
      (onward d₂ only f₂ parts (below (placeOf dir₂) r)) := by
  rw [onward, onward, arrived, arrived, showsDirectory_twins hmoved h]
  split_ifs
  · exact .empty
  · exact .single (h.twin dir₁ dir₂)
  · exact ih.inside h

theorem named_twins (ih : SearchTwins d₁ d₂ dir₁ dir₂ tree dots only f₁)
    (h : Ready tree dots parts r l n parts.length f₁ f₂) {s : String}
    (hname₁ : (below (placeOf dir₁) r).fileName? = some s)
    (hname₂ : (below (placeOf dir₂) r).fileName? = some s) :
    Yield.Match (Twin tree dots dir₁ dir₂) (named d₁ only f₁ (below (placeOf dir₁) r) part parts)
      (named d₂ only f₂ (below (placeOf dir₂) r) part parts) := by
  rw [named, named, hname₁, hname₂]
  dsimp only
  split_ifs
  · exact onward_twins hmoved ih h
  · exact .empty

/-- A part without wildcards is appended to both paths or to neither. -/
theorem admits_twins
    (h : Ready tree dots (part :: parts) r l n (parts.length + 1) (f₁ + 1) (f₂ + 1)) :
    admits d₁ part (below (placeOf dir₁) r) = admits d₂ part (below (placeOf dir₂) r) ∧
      (admits d₁ part (below (placeOf dir₁) r) = true →
        ∃ l' n', Ready tree dots parts (extend r part.text) l' n' parts.length f₁ f₂) := by
  obtain ⟨hslash, hup, -⟩ := h.tame part List.mem_cons_self
  -- A part is a step `.`, or empty, or a name; a step `..` is not tame.
  unfold admits
  rw [step_of_isAbsolute (isAbsolute_below hmoved.first.named),
    step_of_isAbsolute (isAbsolute_below hmoved.second.named)]
  by_cases hdot : part.text = "."
  · simp only [hdot, beq_self_eq_true, Bool.true_or, if_true]
    refine ⟨showsDirectory_twins hmoved h, fun hdir => ⟨l, n + 1, h.dot hdot ?_⟩⟩
    exact (showsDirectory_first hmoved h).mp hdir
  rw [if_neg (by simp [hdot, hup]), if_neg (by simp [hdot, hup])]
  by_cases hempty : part.text = ""
  · have hfirst := hmoved.first.presentOrLink_empty hmoved.fits_first h.reaches h.n_le
    have hsecond := hmoved.second.presentOrLink_empty hmoved.fits_second h.reaches h.n_le
    rw [hempty]
    refine ⟨?_, fun hpresent => ⟨l, n, h.slash (hfirst.mp hpresent)⟩⟩
    rw [Bool.eq_iff_iff, hfirst, hsecond]
  · have hfirst := hmoved.first.presentOrLink_name hmoved.fits_first h.reaches h.n_le hempty hdot hup
      hslash
    have hsecond := hmoved.second.presentOrLink_name hmoved.fits_second h.reaches h.n_le hempty hdot
      hup hslash
    refine ⟨?_, fun hpresent => ⟨l ++ [part.text], n, h.enter (hfirst.mp hpresent)⟩⟩
    rw [Bool.eq_iff_iff, hfirst, hsecond]

theorem push_twins (s : String) (hs : s.toList.head? ≠ some '/') :
    step (below (placeOf dir₁) r) s = below (placeOf dir₁) (extend r s) ∧
      step (below (placeOf dir₂) r) s = below (placeOf dir₂) (extend r s) := by
  constructor
  · rw [step_of_isAbsolute (isAbsolute_below hmoved.first.named),
      below_push hmoved.first.named hmoved.first.not_root hs]
  · rw [step_of_isAbsolute (isAbsolute_below hmoved.second.named),
      below_push hmoved.second.named hmoved.second.not_root hs]

theorem inside_twins_of_literal (ih : SearchTwins d₁ d₂ dir₁ dir₂ tree dots only f₁)
    (h : Ready tree dots (part :: parts) r l n (parts.length + 1) (f₁ + 1) (f₂ + 1))
    (hliteral : part.isLiteral = true) :
    Yield.Match (Twin tree dots dir₁ dir₂)
      (inside d₁ only (f₁ + 1) (part :: parts) (below (placeOf dir₁) r))
      (inside d₂ only (f₂ + 1) (part :: parts) (below (placeOf dir₂) r)) := by
  have hslash := (h.tame part List.mem_cons_self).no_slash
  obtain ⟨hfirst, hsecond⟩ := push_twins (r := r) hmoved part.text
    fun hhead => hslash (List.mem_of_head? hhead)
  obtain ⟨hadmits, hready⟩ := admits_twins hmoved h
  rw [inside_of_literal hliteral, inside_of_literal hliteral, ← hadmits, hfirst, hsecond]
  split_ifs with hpart
  · obtain ⟨l', n', hready⟩ := hready hpart
    exact onward_twins hmoved ih hready
  · exact .empty

theorem inside_twins_of_wildcard (ih : SearchTwins d₁ d₂ dir₁ dir₂ tree dots only f₁)
    (h : Ready tree dots (part :: parts) r l n (parts.length + 1) (f₁ + 1) (f₂ + 1))
    (hliteral : part.isLiteral = false) :
    Yield.Match (Twin tree dots dir₁ dir₂)
      (inside d₁ only (f₁ + 1) (part :: parts) (below (placeOf dir₁) r))
      (inside d₂ only (f₂ + 1) (part :: parts) (below (placeOf dir₂) r)) := by
  have hspecials := (h.tame part List.mem_cons_self).specials_eq hliteral
  rw [inside_of_wildcard hliteral, inside_of_wildcard hliteral, ← showsDirectory_twins hmoved h]
  split_ifs with hisDir
  · have hdir := (showsDirectory_first hmoved h).mp hisDir
    obtain ⟨names, hnames⟩ : ∃ names, tree.namesAt l = some names := by
      obtain ⟨c, hc⟩ := Option.ne_none_iff_exists'.mp h.reaches.at?
      exact ⟨c.names, by rw [namesAt, hc]; rfl⟩
    rw [hmoved.first.list_below hmoved.fits_first h.reaches h.n_le hdir hnames,
      hmoved.second.list_below hmoved.fits_second h.reaches h.n_le hdir hnames]
    -- Both directories have the same names, and they are looked at in the same order.
    simp only [hspecials, List.reverse_nil, List.map_nil, Yield.concat_nil, Yield.empty_append]
    refine Yield.Match.concat fun s hs => ?_
    rw [List.mem_mergeSort] at hs
    have hname : IsName s := (hmoved.first.sound_tree.of_namesAt hnames).2 s hs
    have hentry := h.toEntry (at?_concat_ne_none_iff.mpr ⟨names, hnames, hs⟩)
    obtain ⟨hfirst, hsecond⟩ := push_twins (r := r) hmoved s hname.head?
    rw [hfirst, hsecond]
    refine ih.entry (s := s) hentry ?_ ?_
    · rw [← below_push hmoved.first.named hmoved.first.not_root hname.head?]
      exact fileName?_push (below_ne_empty hmoved.first.named) hname
    · rw [← below_push hmoved.second.named hmoved.second.not_root hname.head?]
      exact fileName?_push (below_ne_empty hmoved.second.named) hname
  · exact .empty

theorem entry_twins (ih : SearchTwins d₁ d₂ dir₁ dir₂ tree dots only f₁)
    (h : Ready tree dots (part :: parts) r l n (parts.length + 2) (f₁ + 1) (f₂ + 1)) {s : String}
    (hname₁ : (below (placeOf dir₁) r).fileName? = some s)
    (hname₂ : (below (placeOf dir₂) r).fileName? = some s) :
    Yield.Match (Twin tree dots dir₁ dir₂)
      (entry d₁ only (f₁ + 1) (part :: parts) (below (placeOf dir₁) r))
      (entry d₂ only (f₂ + 1) (part :: parts) (below (placeOf dir₂) r)) := by
  cases hrecursive : part.isRecursive with
  | false =>
    rw [entry_of_name hrecursive, entry_of_name hrecursive]
    exact named_twins hmoved ih (h.ofEntry (List.sublist_cons_self part parts)) hname₁ hname₂
  | true =>
    rw [entry_of_recursive hrecursive, entry_of_recursive hrecursive,
      ← showsDirectory_twins hmoved h]
    have hsublist : (parts.dropWhile Part.isRecursive).Sublist parts := List.dropWhile_sublist _
    cases hbelow : parts.dropWhile Part.isRecursive with
    | nil =>
      dsimp only
      split_ifs
      · refine (Yield.Match.single (h.twin dir₁ dir₂)).append (ih.inside (h.ofEntry ?_))
        exact List.singleton_sublist.mpr List.mem_cons_self
      · exact .empty
    | cons next rest =>
      rw [hbelow] at hsublist
      have hrest : rest.Sublist (part :: parts) :=
        ((List.sublist_cons_self next rest).trans hsublist).trans (List.sublist_cons_self part parts)
      refine (named_twins hmoved ih (h.ofEntry hrest) hname₁ hname₂).append ?_
      split_ifs
      · exact ih.inside (h.ofEntry (hsublist.cons_cons part))
      · exact .empty

/-- **Searches below the two places find twins.** -/
theorem search_twins (only : Bool) (f₁ : Nat) : SearchTwins d₁ d₂ dir₁ dir₂ tree dots only f₁ := by
  -- No parts find nothing; any parts need a turn, which both searches have.
  induction f₁ with
  | zero =>
    constructor
    · intro f₂ parts r l n h
      have hle := h.enough₁.le h.reaches.at?
      obtain rfl := List.length_eq_zero_iff.mp (Nat.le_zero.mp hle)
      rw [inside_nil, inside_nil]
      exact .empty
    · intro f₂ parts r l n s h _ _
      exact absurd (h.enough₁.le h.reaches.at?) (Nat.not_succ_le_zero _)
  | succ f₁ ih =>
    constructor
    · intro f₂ parts r l n h
      cases parts with
      | nil =>
        rw [inside_nil, inside_nil]
        exact .empty
      | cons part parts =>
        obtain ⟨f₂, rfl⟩ : ∃ f, f₂ = f + 1 :=
          Nat.exists_eq_add_one.mpr (Nat.lt_of_lt_of_le (Nat.succ_pos _) (h.enough₂.le h.reaches.at?))
        cases hliteral : part.isLiteral with
        | true => exact inside_twins_of_literal hmoved ih h hliteral
        | false => exact inside_twins_of_wildcard hmoved ih h hliteral
    · intro f₂ parts r l n s h hname₁ hname₂
      cases parts with
      | nil =>
        rw [entry_nil, entry_nil]
        exact .empty
      | cons part parts =>
        obtain ⟨f₂, rfl⟩ : ∃ f, f₂ = f + 1 :=
          Nat.exists_eq_add_one.mpr (Nat.lt_of_lt_of_le (Nat.succ_pos _) (h.enough₂.le h.reaches.at?))
        exact entry_twins hmoved ih h hname₁ hname₂

/-- A pattern is searched for below both places with the same outcome. -/
theorem run_twins (only : Bool) (htame : ∀ part ∈ parts, Tame part) (hdots : dotsOf parts ≤ dots) :
    Yield.Match (Twin tree dots dir₁ dir₂)
      (Query.run ⟨⟨"/"⟩, (dirPieces dir₁).map escapedPart ++ parts, only⟩ d₁)
      (Query.run ⟨⟨"/"⟩, (dirPieces dir₂).map escapedPart ++ parts, only⟩ d₂) := by
  have hsize : ∀ {place : Location}, Fits (weight place) tree dots →
      weight place + 1 < pathLimit := by
    intro place hfits
    have hlt := hfits.separator ((hasDirectory_nil tree).mpr hmoved.first.directory)
    omega
  obtain ⟨f₁, hf₁, hrun₁⟩ := run_rooted hmoved.first (hsize hmoved.fits_first) parts only
  obtain ⟨f₂, hf₂, hrun₂⟩ := run_rooted hmoved.second (hsize hmoved.fits_second) parts only
  rw [hrun₁, hrun₂, ← below_empty, ← below_empty]
  refine onward_twins hmoved (search_twins hmoved only f₁) (l := []) (n := 0) ?_
  exact ⟨htame, .start, by omega, enough_of_fits hmoved.first hmoved.fits_first hf₁,
    enough_of_fits hmoved.second hmoved.fits_second hf₂⟩

end Search

/-! ### Patterns that stay inside -/

/-- Whether a character can make a part stand for more than one name. -/
def isWildcard (c : Char) : Bool :=
  c == '?' || c == '*' || c == '['

/-- A relative pattern none of whose components is `..` or has wildcards and begins with a dot. -/
structure StaysInside (pattern : String) : Prop where
  relative : Path.isAbsolute ⟨pattern⟩ = false
  ne_up : ∀ piece ∈ Path.pieces pattern.toList, piece ≠ ['.', '.']
  no_wildcard : ∀ piece ∈ Path.pieces pattern.toList, piece.head? = some '.' →
    ∀ c ∈ piece, isWildcard c = false

theorem staysInside_iff (pattern : String) :
    (!Path.isAbsolute ⟨pattern⟩ && (Path.pieces pattern.toList).all fun piece =>
      piece != ['.', '.'] && (piece.head? != some '.' || piece.all fun c => !isWildcard c)) = true ↔
      StaysInside pattern := by
  simp only [Bool.and_eq_true, Bool.not_eq_true', List.all_eq_true, bne_iff_ne, Bool.or_eq_true]
  constructor
  · rintro ⟨hrelative, hpieces⟩
    refine ⟨hrelative, fun piece hpiece => (hpieces piece hpiece).1, fun piece hpiece hdot => ?_⟩
    exact (hpieces piece hpiece).2.resolve_left fun hne => hne hdot
  · rintro ⟨hrelative, hup, hwildcard⟩
    refine ⟨hrelative, fun piece hpiece => ⟨hup piece hpiece, ?_⟩⟩
    by_cases hdot : piece.head? = some '.'
    · exact .inr (hwildcard piece hpiece hdot)
    · exact .inl hdot

instance (pattern : String) : Decidable (StaysInside pattern) :=
  decidable_of_iff _ (staysInside_iff pattern)

/-- The number of components `.` of a pattern. -/
def dotsIn (pattern : String) : Nat :=
  (Path.pieces pattern.toList).count ['.']

theorem read?_of_plain {cs : List Char} (h : ∀ c ∈ cs, isWildcard c = false) (start : Bool) :
    read? start cs = some (cs.map .char) := by
  induction cs generalizing start with
  | nil => rfl
  | cons c cs ih =>
    rw [List.forall_mem_cons] at h
    obtain ⟨⟨hany, hrun⟩, hopen⟩ : (c ≠ '?' ∧ c ≠ '*') ∧ c ≠ '[' := by
      simpa [isWildcard] using h.1
    rw [read?_char start cs hany hrun hopen, ih h.2]
    rfl

/-- Only a character is read as a character. -/
theorem eq_of_tokensFrom {fuel i : Nat} {previous : Option Char} {c x : Char} {cs : List Char}
    {ts : List Token} (h : tokensFrom (fuel + 1) i previous (c :: cs) = .ok ts)
    (hx : ts.head? = some (.char x)) : c = x := by
  have hmap : ∀ {t : Token} {e : Except Misuse (List Token)},
      e.map (t :: ·) = .ok ts → t = .char x := by
    intro t e he
    cases e with
    | error m => cases he
    | ok rest =>
      obtain rfl := Except.ok.inj he
      exact Option.some.inj hx
  unfold tokensFrom at h
  split at h
  · cases hmap h
  · dsimp only at h
    split at h
    · cases hmap h
    · split at h
      · split at h
        · obtain rfl := Except.ok.inj h
          cases hx
        · cases hmap h
        · cases h
      · cases h
    · cases h
  · split at h
    · next token n rest hbrackets =>
      obtain rfl := hmap h
      unfold brackets? at hbrackets
      split at hbrackets <;> simp at hbrackets
    · cases h
  · exact Token.char.inj (hmap h)

theorem tame_of_isPart {piece : List Char} {part : Part} (h : IsPart piece part)
    (hslash : '/' ∉ piece) (hup : piece ≠ ['.', '.'])
    (hdot : piece.head? = some '.' → ∀ c ∈ piece, isWildcard c = false) : Tame part where
  no_slash := by rwa [h.1, String.toList_ofList]
  ne_up heq := hup (by simpa using congrArg String.toList (h.1.symm.trans heq))
  specials_eq hwild := by
    rw [specials, if_neg]
    intro hhead
    have htokens := h.2
    cases piece with
    | nil =>
      obtain hnil : [] = part.tokens := Except.ok.inj htokens
      rw [← hnil] at hhead
      cases hhead
    | cons c cs =>
      rw [tokens, String.toList_ofList] at htokens
      obtain rfl := eq_of_tokensFrom htokens (beq_iff_eq.mp hhead)
      -- A part that begins with a dot and has no wildcards is literal.
      have hread := read?_of_plain (hdot rfl) true
      rw [← String.toList_ofList (l := '.' :: cs), ← toOption_tokens, h.2,
        String.toList_ofList] at hread
      obtain hchars : part.tokens = ('.' :: cs).map .char := Option.some.inj hread
      rw [Part.isLiteral, hchars] at hwild
      simp at hwild

section StaysInside

variable {pattern : String} {parts : List Part}

theorem patternPieces_sublist (pattern : String) :
    (patternPieces pattern).Sublist (Path.pieces pattern.toList) := by
  rw [patternPieces]
  split_ifs
  · exact List.dropLast_sublist _
  · exact List.Sublist.refl _

theorem tame_of_staysInside (h : StaysInside pattern) (hread : ReadAs pattern parts) :
    ∀ part ∈ parts, Tame part := by
  intro part hpart
  obtain ⟨piece, hpiece, hisPart⟩ := exists_piece_of_mem hread.2 hpart
  have hmem := (patternPieces_sublist pattern).subset hpiece
  exact tame_of_isPart hisPart (Path.slash_not_mem_of_mem_pieces hmem) (h.ne_up piece hmem)
    (h.no_wildcard piece hmem)

theorem dotsOf_le (hread : ReadAs pattern parts) : dotsOf parts ≤ dotsIn pattern := by
  have hcount : dotsOf parts = (patternPieces pattern).count ['.'] := by
    obtain ⟨-, hparts⟩ := hread
    generalize patternPieces pattern = pieces at hparts
    induction hparts with
    | nil => rfl
    | @cons piece part pieces parts hpart _ ih =>
      have htext : (part.text == ".") = (piece == ['.']) := by
        rw [hpart.1, Bool.eq_iff_iff, beq_iff_eq, beq_iff_eq, ← String.toList_inj,
          String.toList_ofList]
        rfl
      rw [dotsOf] at ih
      rw [dotsOf, List.countP_cons, List.count_cons, ih, htext]
  rw [hcount, dotsIn]
  exact (patternPieces_sublist pattern).count_le _

end StaysInside

end CodeNotes.Pattern
