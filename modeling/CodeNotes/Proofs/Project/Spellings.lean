import CodeNotes.Proofs.Path.Lexical
import CodeNotes.Proofs.Pattern.Descent
import CodeNotes.Proofs.Project.Union

/-!
# Spellings of one file

Duplicates are told by their components, and what is to be skipped by how a path is written behind
the directory of the project.  Neither takes a `..` back, so one file can be selected twice, and in
spite of a pattern to skip that matches its name (`resolve_keeps_two_spellings`).

Apart from dots both act on files.  What a search finds is absolute if the directory is, and nothing
is empty between its separators (`tidy_of_mem_yields`).  So two paths that part without `..` lead to
different places, and a path without dots behind the directory is written as the names that lead
from there to its place (`resolve_respects_places`).
-/

namespace CodeNotes

namespace Path

/-! ### Paths without `..` -/

theorem map_name_text {cs : List Component} (h : ∀ c ∈ cs, ∃ s, c = .name s) :
    (cs.map Component.text).map .name = cs := by
  rw [List.map_map, List.map_congr_left (g := id), List.map_id]
  intro c hc
  obtain ⟨s, rfl⟩ := h c hc
  rfl

/-- Two absolute paths that go on without `..` behind what they share and lead to the same place
have the same components. -/
theorem components_eq_of_lexical {p q : Path} (hp : p.isAbsolute = true) (hq : q.isAbsolute = true)
    {common cs ds : List Component} (hcs : p.components = common ++ cs)
    (hds : q.components = common ++ ds) (hpUp : .parent ∉ cs) (hqUp : .parent ∉ ds)
    (h : p.lexical = q.lexical) : p.components = q.components := by
  wlog hcommon : common ≠ [] generalizing common cs ds with hshared
  · -- They share the root in any case.
    obtain rfl : common = [] := not_not.mp hcommon
    obtain ⟨cs', hcs'⟩ := List.head?_eq_some_iff.mp ((isAbsolute_iff p).mp hp)
    obtain ⟨ds', hds'⟩ := List.head?_eq_some_iff.mp ((isAbsolute_iff q).mp hq)
    rw [List.nil_append] at hcs hds
    refine @hshared [.root] cs' ds' hcs' hds' ?_ ?_ (List.cons_ne_nil _ _)
    · exact fun hmem => hpUp (hcs.symm.trans hcs' ▸ List.mem_cons_of_mem _ hmem)
    · exact fun hmem => hqUp (hds.symm.trans hds' ▸ List.mem_cons_of_mem _ hmem)
  rw [lexical_eq, lexical_eq, hp, hq, hcs, hds, List.foldl_append, List.foldl_append,
    foldl_step_of_append hcs hcommon hpUp, foldl_step_of_append hds hcommon hqUp] at h
  have htexts : cs.map Component.text = ds.map Component.text :=
    List.append_cancel_left (congrArg Place.names h)
  rw [hcs, hds, ← map_name_text (exists_name_of_append hcs hcommon hpUp), htexts,
    map_name_text (exists_name_of_append hds hcommon hqUp)]

/-- A path without `..` behind a directory leads down from there along its names. -/
theorem lexical_of_under? {p dir r : Path} (h : p.under? dir = some r)
    (habs : p.isAbsolute = dir.isAbsolute) (hup : .parent ∉ r.components) :
    p.lexical = { dir.lexical with names := dir.lexical.names ++ r.withoutDots } := by
  rw [lexical_eq p, components_of_under? h, List.foldl_append, habs, ← lexical_eq dir,
    Place.foldl_names (root_not_mem_of_under? h habs) hup]
  rfl

/-! ### Tidy paths -/

/-- An absolute path with nothing empty between its separators. -/
structure Tidy (p : Path) : Prop where
  absolute : p.isAbsolute = true
  filled : [] ∉ (pieces p.text.toList).tail.dropLast

theorem text_ne_empty_of_isAbsolute {p : Path} (h : p.isAbsolute = true) : p.text ≠ "" := by
  intro hempty
  simp [isAbsolute, hempty] at h

/-- A run of pieces of which only the last one could be empty has no empty one if it does not end
with one. -/
theorem nil_not_mem_of_infix {l pieces : List (List Char)} (h : l <:+: pieces)
    (hfilled : [] ∉ pieces.dropLast) (hlast : l.getLast? ≠ some []) : [] ∉ l := by
  obtain ⟨front, back, rfl⟩ := h
  induction l using List.reverseRecOn with
  | nil => exact List.not_mem_nil
  | append_singleton init last =>
    rw [List.getLast?_concat, ne_eq, Option.some.injEq] at hlast
    intro hmem
    have hinit : [] ∈ init := by simpa [Ne.symm hlast] using hmem
    refine hfilled ?_
    rw [← List.append_assoc, List.append_assoc, List.dropLast_append_of_ne_nil (by simp)]
    exact List.mem_append_left _ (List.mem_append_right _ hinit)

/-- A part that is appended to a tidy path follows pieces that are not empty. -/
theorem Tidy.exists_front {p : Path} (h : p.Tidy) {x : String} (hx : '/' ∉ x.toList) :
    ∃ front, front ≠ [] ∧ [] ∉ front.tail ∧
      pieces (p.push x).text.toList = front ++ [x.toList] := by
  have hne := text_ne_empty_of_isAbsolute h.absolute
  have hhead : x.toList.head? ≠ some '/' := fun hhead => hx (List.mem_of_head? hhead)
  have hpieces : pieces x.toList = [x.toList] := pieces_of_not_mem hx
  rw [Path.push, if_neg (by simpa using hhead)]
  by_cases hlast : p.text.toList.getLast? = some '/'
  · -- The empty piece behind the last separator is filled.
    obtain ⟨cs, hcs⟩ := List.getLast?_eq_some_iff.mp hlast
    have hfilled := h.filled
    rw [hcs, pieces_append, List.tail_append_of_ne_nil (pieces_ne_nil cs)] at hfilled
    refine ⟨pieces cs, pieces_ne_nil cs, by simpa [pieces] using hfilled, ?_⟩
    rw [if_pos (by simp [hlast]), String.toList_append, hcs, List.append_assoc,
      List.singleton_append, pieces_append, hpieces]
  · refine ⟨pieces p.text.toList, pieces_ne_nil _, ?_, ?_⟩
    · refine nil_not_mem_of_infix List.infix_rfl h.filled fun htail => ?_
      refine Pattern.getLast?_pieces hlast (by simpa using hne) ?_
      obtain ⟨init, hinit⟩ := List.getLast?_eq_some_iff.mp htail
      rw [← List.cons_head_tail (pieces_ne_nil p.text.toList), hinit, ← List.cons_append,
        List.getLast?_concat]
    · rw [if_neg (by simp [hlast, hne]), String.toList_append, String.toList_append,
        List.append_assoc, ← hpieces]
      exact pieces_append _ _

theorem Tidy.push {p : Path} (h : p.Tidy) {x : String} (hx : '/' ∉ x.toList) :
    (p.push x).Tidy where
  absolute := by
    have hhead : x.toList.head? ≠ some '/' := fun hhead => hx (List.mem_of_head? hhead)
    rw [isAbsolute_push (text_ne_empty_of_isAbsolute h.absolute) hhead, h.absolute]
  filled := by
    obtain ⟨front, hfront, hfilled, hpush⟩ := h.exists_front hx
    rw [hpush, List.tail_append_of_ne_nil hfront, List.dropLast_concat]
    exact hfilled

/-- What is left after a directory is joined from pieces in their order, of which the last one says
something. -/
theorem exists_pieces_of_remainder (rest : List (List Char)) :
    ∃ l, remainder rest = ⟨String.ofList (joinPieces l)⟩ ∧ l <:+: rest ∧ l.getLast? ≠ some [] := by
  refine ⟨_, rfl, ?_, ?_⟩
  · have hfront : (dropIdle (dropIdle rest).reverse).reverse <+: dropIdle rest := by
      rw [← List.reverse_suffix, List.reverse_reverse]
      exact dropIdle_suffix _
    exact hfront.isInfix.trans (dropIdle_suffix rest).isInfix
  · rw [List.getLast?_reverse]
    intro hhead
    obtain ⟨l, hl⟩ := List.head?_eq_some_iff.mp hhead
    exact inner?_ne_none_of_dropIdle hl rfl

theorem exists_suffix_of_under? {p dir r : Path} (h : p.under? dir = some r)
    (hdir : dir.components ≠ []) :
    ∃ rest, rest <:+ (pieces p.text.toList).tail ∧ r = remainder rest := by
  unfold under? at h
  split at h
  · next hnil => exact absurd hnil hdir
  · split_ifs at h
    obtain ⟨rest, hrest, rfl⟩ := Option.map_eq_some_iff.mp h
    exact ⟨rest, suffix_of_dropComponents hrest, rfl⟩
  · nomatch h

/-- Names joined by separators are the components of the path. -/
theorem components_of_names {l : List (List Char)} (hslash : ∀ x ∈ l, '/' ∉ x)
    (hnames : ∀ x ∈ l, inner? x = some (.name (String.ofList x))) :
    (Path.mk (String.ofList (joinPieces l))).components =
      l.map fun x => .name (String.ofList x) := by
  cases l with
  | nil => rfl
  | cons first l =>
    have hpieces : pieces (Path.mk (String.ofList (joinPieces (first :: l)))).text.toList =
        first :: l := by
      rw [String.toList_ofList]
      exact pieces_joinPieces (List.cons_ne_nil first l) hslash
    have hfirst : inner? first ≠ none := by simp [hnames first List.mem_cons_self]
    rw [components_of_pieces hpieces hfirst, List.filterMap_congr hnames, List.filterMap_eq_map']

/-- What is left of a tidy path behind a directory is written as its names, if it has no dots. -/
theorem text_of_tidy {p dir r : Path} (hp : p.Tidy) (hdir : dir.isAbsolute = true)
    (h : p.under? dir = some r)
    (hdots : ∀ piece ∈ pieces r.text.toList, piece ≠ ['.'] ∧ piece ≠ ['.', '.']) :
    .parent ∉ r.components ∧ r.text = "/".intercalate r.withoutDots := by
  have hne : dir.components ≠ [] := by
    intro hnil
    rw [isAbsolute_iff, hnil] at hdir
    nomatch hdir
  obtain ⟨rest, hrest, rfl⟩ := exists_suffix_of_under? h hne
  obtain ⟨l, hr, hinfix, hlast⟩ := exists_pieces_of_remainder rest
  have hpieces : l <:+: (pieces p.text.toList).tail := hinfix.trans hrest.isInfix
  have hslash : ∀ x ∈ l, '/' ∉ x := fun x hx =>
    slash_not_mem_of_mem_pieces (List.mem_of_mem_tail (hpieces.subset hx))
  rw [hr] at hdots ⊢
  have hnames : ∀ x ∈ l, inner? x = some (.name (String.ofList x)) := by
    intro x hx
    rw [String.toList_ofList, pieces_joinPieces (List.ne_nil_of_mem hx) hslash] at hdots
    obtain ⟨hdot, hup⟩ := hdots x hx
    have hempty : x ≠ [] := fun heq =>
      nil_not_mem_of_infix hpieces hp.filled hlast (heq ▸ hx)
    simp [inner?, hempty, hdot, hup]
  have hcomponents := components_of_names hslash hnames
  constructor
  · simp [hcomponents]
  · have htexts : (⟨String.ofList (joinPieces l)⟩ : Path).withoutDots = l.map String.ofList := by
      rw [withoutDots, hcomponents, List.filter_eq_self.mpr (by simp), List.map_map]
      rfl
    rw [htexts, ← String.toList_inj, String.toList_intercalate, String.toList_ofList, List.map_map,
      joinPieces]
    simp

end Path

namespace Selection

open Pattern CodeNotes.Path

variable {disk : Disk} {dir : Path}

theorem isAbsolute_rooted (hdir : dir.isAbsolute = true) (pattern : String) :
    Path.isAbsolute ⟨rooted dir pattern⟩ = true := by
  rw [rooted]
  split_ifs with habs
  · exact habs
  · have hhead : dir.text.toList.head? = some '/' := by simpa [Path.isAbsolute] using hdir
    obtain ⟨cs, hcs⟩ := List.head?_eq_some_iff.mp hhead
    have hroot : (escape dir.text).toList = '/' :: escaped cs := by
      rw [toList_escape, hcs, escaped_cons]
      rfl
    have hfront : ((escape dir.text).toList.reverse.dropWhile (· == '/')).reverse
        <+: '/' :: escaped cs := by
      rw [← hroot]
      exact List.rdropWhile_prefix _ _
    dsimp only
    generalize ((escape dir.text).toList.reverse.dropWhile (· == '/')).reverse = front at hfront
    cases front with
    | nil => simp [Path.isAbsolute]
    | cons c front =>
      obtain ⟨rfl, -⟩ := List.cons_prefix_cons.mp hfront
      simp [Path.isAbsolute]

/-- What a pattern leads to is tidy if the directory it is seen from is absolute. -/
theorem tidy_of_mem_yields (hsound : disk.root.Sound) (hdir : dir.isAbsolute = true)
    {pattern : String} {p : Path} (h : p ∈ yields disk dir pattern) : p.Tidy := by
  unfold yields at h
  split at h
  · nomatch h
  · next q hquery =>
    obtain ⟨t, ht, hfinds⟩ := (run_accounted q).paths p h
    have hinvariant : t.path.Tidy ∧ ∀ part ∈ t.parts, '/' ∉ part.text.toList := by
      refine Reached.invariant
        (P := fun s => s.path.Tidy ∧ ∀ part ∈ s.parts, '/' ∉ part.text.toList) ht
        ⟨?_, slash_not_mem_of_query hquery⟩ ?_
      · obtain ⟨-, hstart, -⟩ := query_eq_ok_iff.mp hquery
        rw [if_pos (isAbsolute_rooted hdir pattern)] at hstart
        change q.start.Tidy
        rw [hstart]
        exact ⟨by decide, by decide⟩
      · rintro s t hmove ⟨hs, hslash⟩
        refine ⟨?_, fun part hpart => hslash part (hmove.parts_subset hpart)⟩
        rcases hmove.path_cases hsound hslash with heq | ⟨x, hx, heq⟩ | ⟨hcurrent, -⟩
        · rw [heq]
          exact hs
        · rw [heq]
          exact hs.push hx
        · have habs := (isAbsolute_iff s.path).mp hs.absolute
          rw [hcurrent] at habs
          nomatch habs
    cases hfinds with
    | arrived => exact hinvariant.1
    | below => exact hinvariant.1

variable {patterns ignore : List String} {paths : List Path}

theorem exists_yields_of_mem [Ignore.Engine] (h : resolve disk patterns ignore dir = .ok paths)
    {p : Path} (hp : p ∈ paths) : (∃ pattern ∈ patterns, p ∈ yields disk dir pattern) ∧
      Chosen disk ignore dir p := by
  obtain ⟨before, after, hsplit, hchosen, -⟩ := (sortedUnion_of_resolve h).first hp
  refine ⟨?_, hchosen⟩
  rw [← List.mem_flatMap, hsplit]
  exact List.mem_append_right _ List.mem_cons_self

/-- **Apart from dots, duplicates are told by the place and skipping by the name.**  Two files of a
project lead to the same place only if one of them is written with `..` behind what they share, and
a file that is written without dots behind the directory is not to be skipped by the names that lead
to it. -/
theorem resolve_respects_places [Ignore.Engine] (disk : Disk) (hsound : disk.root.Sound)
    (dir : Path) (hdir : dir.isAbsolute = true) (patterns ignore : List String) (paths : List Path)
    (h : resolve disk patterns ignore dir = .ok paths) :
    (paths.Pairwise fun p q => p.lexical = q.lexical → ∀ common cs ds,
      p.components = common ++ cs → q.components = common ++ ds → .parent ∈ cs ∨ .parent ∈ ds) ∧
    ∀ p ∈ paths, ∀ r, p.under? dir = some r →
      (∀ piece ∈ pieces r.text.toList, piece ≠ ['.'] ∧ piece ≠ ['.', '.']) →
      ∃ names, p.lexical = { dir.lexical with names := dir.lexical.names ++ names } ∧
        ∀ glob ∈ ignore, ∀ ts, Ignore.tokens glob = .ok ts →
          Ignore.matchesText ts ("/".intercalate names) = false := by
  have htidy : ∀ p ∈ paths, p.Tidy := by
    intro p hp
    obtain ⟨⟨pattern, -, hyields⟩, -⟩ := exists_yields_of_mem h hp
    exact tidy_of_mem_yields hsound hdir hyields
  constructor
  · refine (sortedUnion_of_resolve h).increasing.imp_of_mem ?_
    intro p q hp hq hlt hplace common cs ds hcs hds
    by_contra hup
    obtain ⟨hpUp, hqUp⟩ := not_or.mp hup
    have hcomponents := components_eq_of_lexical (htidy p hp).absolute (htidy q hq).absolute hcs hds
      hpUp hqUp hplace
    rw [order_eq_iff.mpr hcomponents] at hlt
    nomatch hlt
  · intro p hp r hr hdots
    have habs : p.isAbsolute = dir.isAbsolute := (htidy p hp).absolute.trans hdir.symm
    obtain ⟨hup, htext⟩ := text_of_tidy (htidy p hp) hdir hr hdots
    refine ⟨r.withoutDots, lexical_of_under? hr habs hup, fun glob hglob ts hts => ?_⟩
    obtain ⟨-, -, hkept⟩ := exists_yields_of_mem h hp
    rw [← htext, Bool.eq_false_iff]
    intro hmatch
    refine hkept ⟨glob, hglob, ts, hts, ?_⟩
    rw [hr]
    exact hmatch

/-- A project with a directory beside the one its file is in. -/
def crossed : Disk where
  root := .directory [("repo", .directory [("lib", .directory [] false),
    ("src", .directory [("a.js", .file "// none\n".toUTF8 false)] false)] false)] false

theorem sound_crossed : crossed.root.Sound := by
  refine .directory (by decide) (by decide +kernel) (List.forall_mem_singleton.mpr ?_)
  refine .directory (by decide) (by decide +kernel) ?_
  rw [List.forall_mem_cons, List.forall_mem_singleton]
  constructor
  · exact .directory (by decide) (by decide +kernel) nofun
  · exact .directory (by decide) (by decide +kernel) (List.forall_mem_singleton.mpr .file)

theorem plain_crossed : crossed.root.Plain := by
  refine .directory (List.forall_mem_singleton.mpr (.directory ?_))
  rw [List.forall_mem_cons, List.forall_mem_singleton]
  exact ⟨.directory nofun, .directory (List.forall_mem_singleton.mpr .file)⟩

/-- A file that is named twice, once with a detour, once with a dot and a separator too many. -/
theorem resolve_respects_places_crossed :
    (crossed.root.Sound ∧ Path.isAbsolute ⟨"/repo"⟩ = true ∧
      resolve crossed ["lib/../src/a.js", "./src//a.js"] ["b.js"] ⟨"/repo"⟩ =
        .ok [⟨"/repo/lib/../src/a.js"⟩, ⟨"/repo/./src/a.js"⟩] ∧
      Path.under? ⟨"/repo/./src/a.js"⟩ ⟨"/repo"⟩ = some ⟨"src/a.js"⟩) ∧
    ([⟨"/repo/lib/../src/a.js"⟩, ⟨"/repo/./src/a.js"⟩].Pairwise fun p q : Path =>
      p.lexical = q.lexical → ∀ common cs ds, p.components = common ++ cs →
        q.components = common ++ ds → .parent ∈ cs ∨ .parent ∈ ds) ∧
    ∃ names, Path.lexical ⟨"/repo/./src/a.js"⟩ =
        { Path.lexical ⟨"/repo"⟩ with names := (Path.lexical ⟨"/repo"⟩).names ++ names } ∧
      ∀ glob ∈ ["b.js"], ∀ ts, Ignore.tokens glob = .ok ts →
        Ignore.matchesText ts ("/".intercalate names) = false := by
  have hresolve : resolve crossed ["lib/../src/a.js", "./src//a.js"] ["b.js"] ⟨"/repo"⟩ =
      .ok [⟨"/repo/lib/../src/a.js"⟩, ⟨"/repo/./src/a.js"⟩] := by
    decide +kernel
  have hunder : Path.under? ⟨"/repo/./src/a.js"⟩ ⟨"/repo"⟩ = some ⟨"src/a.js"⟩ := by
    decide +kernel
  obtain ⟨hpairwise, hskip⟩ :=
    resolve_respects_places crossed sound_crossed ⟨"/repo"⟩ (by decide) _ _ _ hresolve
  exact ⟨⟨sound_crossed, by decide, hresolve, hunder⟩, hpairwise,
    hskip _ (by simp) _ hunder (by decide +kernel)⟩

/-- Without links and with everything open, one file is selected twice, although a pattern to skip
matches the names that lead to it.  A dot between the names is enough to hide it from the pattern.
-/
theorem resolve_keeps_two_spellings :
    (crossed.root.Plain ∧ crossed.root.Sound ∧ Path.isAbsolute ⟨"/repo"⟩ = true) ∧
    (resolve crossed ["lib/../src/a.js", "src/../src/a.js"] ["src/a.js"] ⟨"/repo"⟩ =
        .ok [⟨"/repo/lib/../src/a.js"⟩, ⟨"/repo/src/../src/a.js"⟩] ∧
      resolve crossed ["src/./a.js"] ["src/a.js"] ⟨"/repo"⟩ = .ok [⟨"/repo/src/./a.js"⟩]) ∧
    (∀ p ∈ [(⟨"/repo/lib/../src/a.js"⟩ : Path), ⟨"/repo/src/../src/a.js"⟩, ⟨"/repo/src/./a.js"⟩],
      p.lexical = { Path.lexical ⟨"/repo"⟩ with
        names := (Path.lexical ⟨"/repo"⟩).names ++ ["src", "a.js"] }) ∧
    (Ignore.tokens "src/a.js").map (Ignore.matchesText · ("/".intercalate ["src", "a.js"])) =
      .ok true := by
  refine ⟨⟨plain_crossed, sound_crossed, by decide⟩, ⟨?_, ?_⟩, ?_, ?_⟩ <;> decide +kernel

end Selection

end CodeNotes
