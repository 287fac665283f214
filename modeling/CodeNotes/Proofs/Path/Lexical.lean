import CodeNotes.Proofs.Path.Components
import Mathlib.Data.List.Induction

/-!
# Paths taken by their text alone

Where a path leads if no disk is looked at: a name goes down, `..` goes up, and `.` and repeated
separators stay (`Path.lexical`).  From the root there is no way up, and from the start of a
relative path every `..` that meets no name goes one directory above it.

What a directory shows of a path leads from the directory to where the path itself leads, if the
directory is written without `..`: always where both start at the root (`follow_relativeTo`), and
for relative paths unless the directory starts with a `.` that the path does not share
(`follow_relativeTo_of_relative`).
-/

namespace CodeNotes.Path

/-! ### Places -/

/-- A place told by a text: below the root, or below a directory so many levels above the start. -/
structure Place where
  rooted : Bool
  above : Nat := 0
  names : List String := []
deriving DecidableEq

namespace Place

/-- The directory a place lies in.  The root lies in itself. -/
def parent (place : Place) : Place :=
  if place.names.isEmpty then
    if place.rooted then place else { place with above := place.above + 1 }
  else { place with names := place.names.dropLast }

/-- What has a name in a place. -/
def child (place : Place) (name : String) : Place :=
  { place with names := place.names ++ [name] }

/-- Goes on from a place by one piece of a path. -/
def take (place : Place) (piece : List Char) : Place :=
  if piece = [] ∨ piece = ['.'] then place
  else if piece = ['.', '.'] then place.parent
  else place.child (String.ofList piece)

/-- Goes on from a place by all pieces of a text. -/
def follow (place : Place) (text : String) : Place :=
  (pieces text.toList).foldl take place

/-- Goes on from a place by a component. -/
def step (place : Place) : Component → Place
  | .root | .current => place
  | .parent => place.parent
  | .name s => place.child s

@[simp]
theorem parent_child (place : Place) (name : String) : (place.child name).parent = place := by
  simp [parent, child]

end Place

/-- Where a path leads by its text alone. -/
def lexical (p : Path) : Place :=
  Place.follow { rooted := p.isAbsolute } p.text

/-! ### Pieces and components -/

theorem take_eq (place : Place) (piece : List Char) :
    place.take piece = ((inner? piece).map place.step).getD place := by
  unfold Place.take inner?
  by_cases hidle : piece = [] ∨ piece = ['.']
  · rcases hidle with rfl | rfl <;> rfl
  · obtain ⟨hempty, hdot⟩ := not_or.mp hidle
    by_cases hup : piece = ['.', '.']
    · subst hup
      rfl
    · simp [hempty, hdot, hup, Place.step]

theorem foldl_take (place : Place) (l : List (List Char)) :
    l.foldl Place.take place = (l.filterMap inner?).foldl Place.step place := by
  induction l generalizing place with
  | nil => rfl
  | cons piece l ih =>
    rw [List.foldl_cons, ih, take_eq, List.filterMap_cons]
    cases inner? piece <;> rfl

/-- A path leads where its components lead. -/
theorem lexical_eq (p : Path) :
    p.lexical = p.components.foldl Place.step { rooted := p.isAbsolute } := by
  rw [lexical, Place.follow, foldl_take, components]
  cases hp : pieces p.text.toList with
  | nil => rfl
  | cons first rest =>
    by_cases habs : p.isAbsolute
    · -- The root is where the path starts, and the piece before it is empty.
      obtain rfl := first_piece_of_isAbsolute habs hp
      simp [habs, inner?, Place.step]
    by_cases hdot : first = ['.']
    · subst hdot
      simp [habs, inner?, Place.step]
    · cases hfirst : inner? first <;> simp [habs, hdot, hfirst]

theorem inner?_text {x : List Char} {c : Component} (h : inner? x = some c) :
    inner? c.text.toList = some c := by
  rcases toList_text_of_inner? h with htext | htext
  · unfold inner? at h
    split_ifs at h
    · rw [← Option.some.inj h]
      rfl
    · -- A name is no `..`, since it is the piece it stands for.
      next hup =>
      rw [← Option.some.inj h, Component.text, String.toList_ofList] at htext
      exact absurd (beq_iff_eq.mpr htext) hup
  · rw [htext, h]

/-- Behind its first component a path has only names and `..`. -/
theorem exists_inner?_of_mem_tail {p : Path} {c : Component} (h : c ∈ p.components.tail) :
    ∃ x ∈ pieces p.text.toList, inner? x = some c := by
  obtain ⟨-, hnil⟩ | ⟨first, hp⟩ := components_cases p
  · rw [hnil] at h
    nomatch h
  · rw [hp, List.tail_cons, List.mem_filterMap] at h
    obtain ⟨x, hx, hc⟩ := h
    exact ⟨x, List.mem_of_mem_tail hx, hc⟩

theorem inner?_ne_root (x : List Char) : inner? x ≠ some .root := by
  unfold inner?
  split_ifs <;> simp

theorem inner?_ne_current (x : List Char) : inner? x ≠ some .current := by
  unfold inner?
  split_ifs <;> simp

theorem current_not_mem_tail (p : Path) : .current ∉ p.components.tail := by
  intro h
  obtain ⟨x, -, hx⟩ := exists_inner?_of_mem_tail h
  exact inner?_ne_current x hx

theorem root_not_mem_tail (p : Path) : .root ∉ p.components.tail := by
  intro h
  obtain ⟨x, -, hx⟩ := exists_inner?_of_mem_tail h
  exact inner?_ne_root x hx

theorem exists_name_of_mem_tail {p : Path} {c : Component} (h : c ∈ p.components.tail)
    (hup : c ≠ .parent) : ∃ s, c = .name s := by
  cases c with
  | root => exact absurd h (root_not_mem_tail p)
  | current => exact absurd h (current_not_mem_tail p)
  | parent => exact absurd rfl hup
  | name s => exact ⟨s, rfl⟩

/-- Where a path goes on without `..` behind its first components, it goes on with names. -/
theorem exists_name_of_append {p : Path} {common cs : List Component}
    (h : p.components = common ++ cs) (hcommon : common ≠ []) (hup : .parent ∉ cs) :
    ∀ c ∈ cs, ∃ s, c = .name s := by
  intro c hc
  have htail : c ∈ p.components.tail := by
    rw [h, List.tail_append_of_ne_nil hcommon]
    exact List.mem_append_right _ hc
  exact exists_name_of_mem_tail htail fun heq => hup (heq ▸ hc)

/-- The text of a component is read as that component, unless it is the start of the path. -/
theorem take_text {p : Path} {c : Component} (h : c ∈ p.components) (hroot : c ≠ .root)
    (place : Place) : place.take c.text.toList = place.step c := by
  rcases cases_of_mem_components h with rfl | rfl | ⟨x, -, hx⟩
  · exact absurd rfl hroot
  · rfl
  · rw [take_eq, inner?_text hx]
    rfl

theorem slash_not_mem_text {p : Path} {c : Component} (h : c ∈ p.components) (hroot : c ≠ .root) :
    '/' ∉ c.text.toList := by
  rcases cases_of_mem_components h with rfl | rfl | ⟨x, hx, hc⟩
  · exact absurd rfl hroot
  · decide
  · rcases toList_text_of_inner? hc with htext | htext
    · rw [htext]
      decide
    · rw [htext]
      exact slash_not_mem_of_mem_pieces hx

/-- What a link shows of a relative path leads where its components lead. -/
theorem follow_linkText {p : Path} (hroot : .root ∉ p.components) (place : Place) :
    place.follow p.linkText = p.components.foldl Place.step place := by
  have hne : ∀ c ∈ p.components, c ≠ .root := fun c hc heq => hroot (heq ▸ hc)
  rw [Place.follow, linkText, String.toList_intercalate, List.map_map]
  cases hcs : p.components with
  | nil => rfl
  | cons c cs =>
    rw [← hcs]
    have hslash : ∀ x ∈ p.components.map (String.toList ∘ Component.text), '/' ∉ x := by
      rw [List.forall_mem_map]
      exact fun c hc => slash_not_mem_text hc (hne c hc)
    have hpieces := pieces_joinPieces (by simp [hcs]) hslash
    rw [joinPieces] at hpieces
    change List.foldl Place.take place (pieces (['/'].intercalate _)) = _
    rw [hpieces, List.foldl_map]
    exact List.foldl_ext _ _ _ fun place c hc => take_text hc (hne c hc) place

/-- A link shows no separator before a relative path. -/
theorem head?_linkText {p : Path} (hroot : .root ∉ p.components) :
    p.linkText.toList.head? ≠ some '/' := by
  rw [linkText, String.toList_intercalate, List.map_map]
  cases hcs : p.components with
  | nil => simp
  | cons c cs =>
    have hc : c ∈ p.components := by simp [hcs]
    have hne : c ≠ .root := fun heq => hroot (heq ▸ hc)
    have htext : c.text.toList ≠ [] := by
      intro hnil
      rcases cases_of_mem_components hc with rfl | rfl | ⟨x, -, hx⟩
      · exact hne rfl
      · cases hnil
      · have hread := inner?_text hx
        rw [hnil] at hread
        cases hread
    obtain ⟨d, ds, hds⟩ := List.exists_cons_of_ne_nil htext
    have hslash := slash_not_mem_text hc hne
    rw [hds, List.mem_cons, not_or] at hslash
    cases cs with
    | nil => simpa [hds] using Ne.symm hslash.1
    | cons c' cs => simpa [List.intercalate_cons_cons, hds] using Ne.symm hslash.1

/-! ### Below the directory -/

theorem root_not_mem_of_append {p : Path} {cs cs' : List Component} (h : p.components = cs ++ cs')
    (hcs : cs ≠ [] ∨ p.isAbsolute = false) : .root ∉ cs' := by
  intro hmem
  have htail := root_not_mem_tail p
  cases cs with
  | cons c cs =>
    rw [h, List.cons_append, List.tail_cons] at htail
    exact htail (List.mem_append_right cs hmem)
  | nil =>
    have habs : p.isAbsolute = false := hcs.resolve_left fun hne => hne rfl
    rw [List.nil_append] at h
    cases cs' with
    | nil => nomatch hmem
    | cons c cs' =>
      rw [h, List.tail_cons] at htail
      have hroot : c = .root := ((List.mem_cons.mp hmem).resolve_right htail).symm
      have hhead : p.components.head? = some .root := by rw [h, List.head?_cons, hroot]
      rw [(isAbsolute_iff p).mpr hhead] at habs
      nomatch habs

theorem root_not_mem_of_under? {p dir r : Path} (h : p.under? dir = some r)
    (habs : p.isAbsolute = dir.isAbsolute) : .root ∉ r.components := by
  refine root_not_mem_of_append (components_of_under? h) ?_
  rw [or_iff_not_imp_left, not_not, habs]
  intro hnil
  rw [Bool.eq_false_iff, ne_eq, isAbsolute_iff, hnil]
  nofun

/-- What is left of a path after a directory leads from the directory to where the path leads. -/
theorem follow_under? {p dir r : Path} (h : p.under? dir = some r)
    (habs : p.isAbsolute = dir.isAbsolute) : dir.lexical.follow r.linkText = p.lexical := by
  rw [follow_linkText (root_not_mem_of_under? h habs), lexical_eq, lexical_eq,
    components_of_under? h, habs, List.foldl_append]

/-! ### Out of the directory -/

/-- Two lists of components as far as they agree, and where they part. -/
structure Fork (as bs common cs ds : List Component) : Prop where
  left : as = common ++ cs
  right : bs = common ++ ds
  apart {c : Component} (h : cs.head? = some c) : ds.head? ≠ some c

theorem exists_fork (as bs : List Component) :
    ∃ common cs ds, Fork as bs common cs ds ∧ commonLength as bs = common.length := by
  fun_induction commonLength as bs with
  | case1 a as b bs heq ih =>
    obtain ⟨common, cs, ds, ⟨rfl, rfl, hapart⟩, hlength⟩ := ih
    obtain rfl := eq_of_beq heq
    exact ⟨a :: common, cs, ds, ⟨rfl, rfl, hapart⟩, congrArg Nat.succ hlength⟩
  | case2 a as b bs hne =>
    refine ⟨[], a :: as, b :: bs, ⟨rfl, rfl, ?_⟩, rfl⟩
    rintro c hc hd
    obtain rfl := Option.some.inj hc
    obtain rfl := Option.some.inj hd
    exact hne (beq_self_eq_true _)
  | case3 as bs hnil =>
    refine ⟨[], as, bs, ⟨rfl, rfl, ?_⟩, rfl⟩
    intro c hc hd
    obtain ⟨as', rfl⟩ := List.head?_eq_some_iff.mp hc
    obtain ⟨bs', rfl⟩ := List.head?_eq_some_iff.mp hd
    exact hnil _ _ _ _ rfl rfl

theorem components_foldl_push {parts : List String} {p : Path} (hne : p.text ≠ "")
    (hparts : ∀ part ∈ parts, '/' ∉ part.toList) :
    (parts.foldl push p).components
      = p.components ++ parts.filterMap fun part => inner? part.toList := by
  induction parts generalizing p with
  | nil => rw [List.foldl_nil, List.filterMap_nil, List.append_nil]
  | cons part parts ih =>
    rw [List.forall_mem_cons] at hparts
    have hhead : part.toList.head? ≠ some '/' := fun h => hparts.1 (List.mem_of_head? h)
    rw [List.foldl_cons, ih (text_push_ne_empty hne hhead) hparts.2, components_push hne hhead,
      pieces_of_not_mem hparts.1, List.append_assoc, List.filterMap_cons]
    cases hinner : inner? part.toList <;> simp [hinner]

/-- The way out of a directory: as many `..` as there are components to climb, and the rest of the
path. -/
theorem components_climb {p dir : Path} (h : p.under? dir = none)
    (habs : p.isAbsolute = dir.isAbsolute) :
    ∃ common cs ds, Fork p.components dir.components common cs ds ∧ .root ∉ cs ∧
      (p.relativeTo dir).components
        = List.replicate ds.length .parent ++ cs.filter (· ≠ .current) := by
  obtain ⟨common, cs, ds, hfork, hlength⟩ := exists_fork p.components dir.components
  -- If both start at the root, they have that in common.
  have hroot : .root ∉ cs := by
    refine root_not_mem_of_append hfork.left ?_
    rw [or_iff_not_imp_left, not_not, Bool.eq_false_iff, ne_eq]
    rintro rfl hp
    have hdir := habs ▸ hp
    rw [isAbsolute_iff, hfork.left] at hp
    rw [isAbsolute_iff, hfork.right] at hdir
    exact hfork.apart hp hdir
  -- A directory that ends where the path goes on could be cut off.
  have hds : ds ≠ [] := by
    rintro rfl
    have hsome : (p.under? dir).isSome := by
      rw [isSome_under?, hfork.left, hfork.right, List.append_nil]
      exact List.prefix_append common cs
    rw [h] at hsome
    nomatch hsome
  obtain ⟨d, ds', rfl⟩ := List.exists_cons_of_ne_nil hds
  have hdrop : p.components.drop common.length = cs := by rw [hfork.left, List.drop_left]
  have hclimb : dir.components.length - common.length = ds'.length + 1 := by
    rw [hfork.right, List.length_append, Nat.add_sub_cancel_left, List.length_cons]
  have hmem : ∀ c ∈ cs, c ∈ p.components ∧ c ≠ .root := fun c hc =>
    ⟨hfork.left ▸ List.mem_append_right common hc, fun heq => hroot (heq ▸ hc)⟩
  have hslash : ∀ part ∈ List.replicate ds'.length ".." ++ cs.map Component.text,
      '/' ∉ part.toList := by
    rw [List.forall_mem_append, List.forall_mem_map]
    refine ⟨fun part hpart => ?_, fun c hc => slash_not_mem_text (hmem c hc).1 (hmem c hc).2⟩
    rw [List.eq_of_mem_replicate hpart]
    decide
  have hrest : (cs.map Component.text).filterMap (fun part => inner? part.toList)
      = cs.filter (· ≠ .current) := by
    rw [List.filterMap_map, ← List.filterMap_eq_filter]
    refine List.filterMap_congr fun c hc => ?_
    rcases cases_of_mem_components (hmem c hc).1 with rfl | rfl | ⟨x, -, hx⟩
    · exact absurd rfl (hmem _ hc).2
    · rfl
    · have hcurrent : c ≠ .current := fun heq => inner?_ne_current x (heq ▸ hx)
      simp [inner?_text hx, hcurrent]
  have hups : (List.replicate ds'.length "..").filterMap (fun part => inner? part.toList)
      = List.replicate ds'.length .parent := by
    rw [List.filterMap_replicate]
    rfl
  have hfirst : push ⟨""⟩ ".." = ⟨".."⟩ := rfl
  refine ⟨common, cs, d :: ds', hfork, hroot, ?_⟩
  unfold relativeTo
  rw [h]
  dsimp only
  rw [hlength, hdrop, hclimb, List.replicate_succ, List.cons_append, List.foldl_cons, hfirst,
    components_foldl_push (by decide) hslash, List.filterMap_append, hups, hrest,
    List.length_cons, List.replicate_succ]
  rfl

/-- What a directory shows of a path does not start at the root. -/
theorem root_not_mem_relativeTo {p dir : Path} (habs : p.isAbsolute = dir.isAbsolute) :
    .root ∉ (p.relativeTo dir).components := by
  cases h : p.under? dir with
  | some r =>
    rw [relativeTo, h]
    exact root_not_mem_of_under? h habs
  | none =>
    obtain ⟨common, cs, ds, -, hroot, hcomponents⟩ := components_climb h habs
    rw [hcomponents, List.mem_append, not_or]
    constructor
    · intro hmem
      nomatch List.eq_of_mem_replicate hmem
    · exact fun hmem => hroot (List.mem_of_mem_filter hmem)

namespace Place

theorem foldl_step_filter (place : Place) (cs : List Component) :
    (cs.filter (· ≠ .current)).foldl step place = cs.foldl step place := by
  induction cs generalizing place with
  | nil => rfl
  | cons c cs ih =>
    by_cases hc : c = .current
    · subst hc
      exact ih place
    · rw [List.filter_cons_of_pos (by simpa using hc), List.foldl_cons, List.foldl_cons, ih]

/-- As many `..` as there are names lead back to where the names started. -/
theorem foldl_parents {cs : List Component} (hcs : ∀ c ∈ cs, ∃ s, c = .name s) (place : Place) :
    (List.replicate cs.length Component.parent).foldl step (cs.foldl step place) = place := by
  induction cs using List.reverseRecOn with
  | nil => rfl
  | append_singleton cs c ih =>
    rw [List.forall_mem_append, List.forall_mem_singleton] at hcs
    obtain ⟨hcs, s, rfl⟩ := hcs
    rw [List.foldl_append, List.length_append, List.length_singleton, List.replicate_succ,
      List.foldl_cons]
    change List.foldl step ((List.foldl step place cs).child s).parent _ = place
    rw [parent_child, ih hcs]

/-- Names and `.` only go down. -/
theorem foldl_names {cs : List Component} (hroot : .root ∉ cs) (hup : .parent ∉ cs)
    (place : Place) : cs.foldl step place =
      { place with names := place.names ++ (cs.filter (· ≠ .current)).map Component.text } := by
  induction cs generalizing place with
  | nil => simp
  | cons c cs ih =>
    rw [List.mem_cons, not_or] at hroot hup
    rw [List.foldl_cons, ih hroot.2 hup.2]
    cases c with
    | root => exact absurd rfl hroot.1
    | parent => exact absurd rfl hup.1
    | current => rfl
    | name s => simp [step, child, Component.text]

end Place

/-- The way out of a directory goes up once for each component that the directory does not share
with the path, and then down along the rest of the path. -/
theorem follow_climb {p dir : Path} (h : p.under? dir = none)
    (habs : p.isAbsolute = dir.isAbsolute) :
    ∃ common cs ds, Fork p.components dir.components common cs ds ∧
      ∀ place : Place, place.follow (p.relativeTo dir).linkText
        = cs.foldl Place.step
          ((List.replicate ds.length Component.parent).foldl Place.step place) := by
  obtain ⟨common, cs, ds, hfork, -, hcomponents⟩ := components_climb h habs
  refine ⟨common, cs, ds, hfork, fun place => ?_⟩
  rw [follow_linkText (root_not_mem_relativeTo habs), hcomponents, List.foldl_append,
    Place.foldl_step_filter]

/-- Where there are only names to climb, the way out leads to where the path leads. -/
theorem Fork.foldl_climb {as bs common cs ds : List Component} (h : Fork as bs common cs ds)
    (hds : ∀ c ∈ ds, ∃ s, c = .name s) (place : Place) :
    cs.foldl Place.step
      ((List.replicate ds.length Component.parent).foldl Place.step (bs.foldl Place.step place))
      = as.foldl Place.step place := by
  rw [h.left, h.right, List.foldl_append, List.foldl_append, Place.foldl_parents hds]

/-! ### Absolute paths -/

/-- Where a path goes on without `..` behind its first components, it goes down. -/
theorem foldl_step_of_append {p : Path} {common cs : List Component}
    (h : p.components = common ++ cs) (hcommon : common ≠ []) (hup : .parent ∉ cs) (place : Place) :
    cs.foldl Place.step place = { place with names := place.names ++ cs.map Component.text } := by
  have hkeep : cs.filter (· ≠ .current) = cs := by
    rw [List.filter_eq_self]
    intro c hc
    obtain ⟨s, rfl⟩ := exists_name_of_append h hcommon hup c hc
    rfl
  rw [Place.foldl_names (root_not_mem_of_append h (.inl hcommon)) hup, hkeep]

/-- Written without `..`, an absolute path leads along its own components. -/
theorem lexical_of_absolute {p : Path} (h : p.isAbsolute = true) (hup : .parent ∉ p.components) :
    p.lexical = { rooted := true, names := p.components.tail.map Component.text } := by
  obtain ⟨cs, hcs⟩ := List.head?_eq_some_iff.mp ((isAbsolute_iff p).mp h)
  have hup' : .parent ∉ cs := fun hmem => hup (hcs ▸ List.mem_cons_of_mem _ hmem)
  rw [lexical_eq, h, hcs, List.foldl_cons, List.tail_cons]
  exact @foldl_step_of_append p [.root] cs hcs (List.cons_ne_nil _ _) hup' _

/-- **The way from a directory to a path leads to the path**, if both start at the root and the
directory is written without `..`. -/
theorem follow_relativeTo {p dir : Path} (hp : p.isAbsolute = true) (hdir : dir.isAbsolute = true)
    (hup : .parent ∉ dir.components) :
    dir.lexical.follow (p.relativeTo dir).linkText = p.lexical := by
  have habs : p.isAbsolute = dir.isAbsolute := hp.trans hdir.symm
  cases hunder : p.under? dir with
  | some r =>
    rw [relativeTo, hunder]
    exact follow_under? hunder habs
  | none =>
    obtain ⟨common, cs, ds, hfork, hfollow⟩ := follow_climb hunder habs
    have hcommon : common ≠ [] := by
      rintro rfl
      rw [isAbsolute_iff, hfork.left] at hp
      rw [isAbsolute_iff, hfork.right] at hdir
      exact hfork.apart hp hdir
    -- What follows the root is a name, since it is no `..`.
    have hds : ∀ c ∈ ds, ∃ s, c = .name s :=
      exists_name_of_append hfork.right hcommon fun hmem =>
        hup (hfork.right ▸ List.mem_append_right common hmem)
    rw [hfollow, lexical_eq dir, hfork.foldl_climb hds, lexical_eq, habs]

/-! ### Relative paths -/

/-- A path with its `.` dropped. -/
def withoutDots (p : Path) : List String :=
  (p.components.filter (· ≠ .current)).map Component.text

/-- The directory starts with `.` and the path does not. -/
def Mismatched (p dir : Path) : Prop :=
  dir.components.head? = some .current ∧ p.components.head? ≠ some .current

instance (p dir : Path) : Decidable (Mismatched p dir) :=
  inferInstanceAs (Decidable (_ ∧ _))

section Relative

variable {p dir : Path}

theorem root_not_mem_of_relative (h : p.isAbsolute = false) : .root ∉ p.components :=
  root_not_mem_of_append (List.nil_append p.components).symm (.inr h)

theorem lexical_of_relative (h : p.isAbsolute = false) (hup : .parent ∉ p.components) :
    p.lexical = { rooted := false, names := p.withoutDots } := by
  rw [lexical_eq, h, Place.foldl_names (root_not_mem_of_relative h) hup]
  rfl

/-- Apart from a `.` that the path does not share, there are only names to climb. -/
theorem exists_name_of_fork (hdir : dir.isAbsolute = false) (hup : .parent ∉ dir.components)
    {common cs ds : List Component} (hfork : Fork p.components dir.components common cs ds)
    (hmatch : ¬Mismatched p dir) : ∀ c ∈ ds, ∃ s, c = .name s := by
  intro c hc
  have hmem : c ∈ dir.components := hfork.right ▸ List.mem_append_right common hc
  cases c with
  | name s => exact ⟨s, rfl⟩
  | parent => exact absurd hmem hup
  | root => exact absurd hmem (root_not_mem_of_relative hdir)
  | current =>
    -- A `.` stands first, so it is not behind anything shared, and the path does not start with it.
    obtain ⟨ds', hds'⟩ : ∃ ds', dir.components = .current :: ds' := by
      cases hcomponents : dir.components with
      | nil =>
        rw [hcomponents] at hmem
        nomatch hmem
      | cons d ds' =>
        have htail := current_not_mem_tail dir
        rw [hcomponents] at hmem htail
        exact ⟨ds', by rw [(List.mem_cons.mp hmem).resolve_right htail]⟩
    have hdot : dir.components.head? = some .current := by rw [hds', List.head?_cons]
    have hp : p.components.head? = some .current := by
      by_contra hne
      exact hmatch ⟨hdot, hne⟩
    cases common with
    | nil =>
      rw [hfork.left] at hp
      rw [hfork.right] at hdot
      exact absurd hdot (hfork.apart hp)
    | cons d common =>
      refine absurd ?_ (current_not_mem_tail dir)
      rw [hfork.right]
      exact List.mem_append_right common hc

variable (hp : p.isAbsolute = false) (hdir : dir.isAbsolute = false)
  (hpUp : .parent ∉ p.components) (hdirUp : .parent ∉ dir.components)

include hp hdir hpUp hdirUp

/-- **The way from a relative directory to a relative path** leads to the path, unless the directory
starts with `.` and the path does not: then that `.` is climbed too, and the way ends one directory
above. -/
theorem follow_relativeTo_of_relative :
    dir.lexical.follow (p.relativeTo dir).linkText =
      { rooted := false, above := if Mismatched p dir then 1 else 0, names := p.withoutDots } := by
  have habs : p.isAbsolute = dir.isAbsolute := hp.trans hdir.symm
  cases hunder : p.under? dir with
  | some r =>
    have hmatch : ¬Mismatched p dir := by
      rintro ⟨hdot, hne⟩
      rw [components_of_under? hunder, List.head?_append, hdot] at hne
      exact hne rfl
    rw [relativeTo, hunder, if_neg hmatch]
    exact (follow_under? hunder habs).trans (lexical_of_relative hp hpUp)
  | none =>
    obtain ⟨common, cs, ds, hfork, hfollow⟩ := follow_climb hunder habs
    by_cases hmatch : Mismatched p dir
    · -- Nothing is shared, and the `.` counts as a directory to climb.
      obtain ⟨hdot, hne⟩ := hmatch
      obtain rfl : common = [] := by
        cases common with
        | nil => rfl
        | cons c common =>
          rw [hfork.right] at hdot
          rw [hfork.left] at hne
          exact absurd hdot hne
      obtain rfl : p.components = cs := hfork.left
      obtain ⟨ds', rfl⟩ : ∃ ds', ds = .current :: ds' := by
        rw [hfork.right] at hdot
        exact List.head?_eq_some_iff.mp hdot
      have hnames : ∀ c ∈ ds', ∃ s, c = .name s :=
        @exists_name_of_append dir [.current] ds' hfork.right (List.cons_ne_nil _ _) fun hmem =>
          hdirUp (hfork.right ▸ List.mem_cons_of_mem _ hmem)
      have hlexical : dir.lexical = ds'.foldl Place.step { rooted := false } := by
        rw [lexical_eq, hdir, hfork.right]
        rfl
      rw [hfollow, hlexical, if_pos ⟨hdot, hne⟩, List.length_cons, List.replicate_succ',
        List.foldl_append, Place.foldl_parents hnames,
        Place.foldl_names (root_not_mem_of_relative hp) hpUp]
      rfl
    · have hds := exists_name_of_fork hdir hdirUp hfork hmatch
      rw [hfollow, lexical_eq dir, hfork.foldl_climb hds, if_neg hmatch, ← habs, ← lexical_eq]
      exact lexical_of_relative hp hpUp

end Relative

end CodeNotes.Path
