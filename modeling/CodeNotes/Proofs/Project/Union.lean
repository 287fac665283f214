import CodeNotes.Proofs.Pattern.Course
import CodeNotes.Proofs.Project.Selection

/-!
# The selected files as a sorted union

What the patterns of a project lead to is put together into one list, in order and without
duplicates (`SortedUnion`).  Of several spellings with the same components the one found first stays
(`exists_first_of_mem_sorted`), and what is to be skipped is left out before the spellings are
compared.  There is no list if a pattern to skip is not well formed, or else if the patterns to skip
cannot be put together, or else if a pattern is not well formed or meets a directory that cannot be
listed.  The first such pattern is named, and all patterns to skip where it is none of them alone
(`Blames`).
-/

namespace CodeNotes.Selection

open Pattern

/-! ### The first spelling stays -/

theorem nodup_map_components {l : List Path} (h : l.Pairwise fun a b => a.order b = .lt) :
    (l.map Path.components).Nodup := by
  refine List.pairwise_map.mpr (h.imp ?_)
  intro p q hlt heq
  rw [Path.order_eq_iff.mpr heq] at hlt
  nomatch hlt

theorem eq_of_mem_sorted {l : List Path} {p q : Path} (hp : p ∈ sorted l) (hq : q ∈ sorted l)
    (h : p.components = q.components) : p = q :=
  List.inj_on_of_nodup_map (nodup_map_components (pairwise_sorted l)) hp hq h

theorem sorted_append_subset (l l' : List Path) : sorted l ⊆ sorted (l ++ l') := by
  induction l' using List.reverseRecOn with
  | nil =>
    rw [List.append_nil]
    exact List.Subset.refl _
  | append_singleton l' p ih =>
    rw [← List.append_assoc, sorted_append_singleton]
    exact fun q hq => mem_insert_of_mem (ih hq)

/-- Before a path that is kept there is none with the same components. -/
theorem exists_first_of_mem_sorted {l : List Path} {p : Path} (h : p ∈ sorted l) :
    ∃ before after, l = before ++ p :: after ∧ ∀ q ∈ before, q.components ≠ p.components := by
  induction l using List.reverseRecOn with
  | nil => nomatch h
  | append_singleton l r ih =>
    by_cases hp : p ∈ sorted l
    · obtain ⟨before, after, rfl, hbefore⟩ := ih hp
      exact ⟨before, after ++ [r], by simp, hbefore⟩
    · -- The path is the last one, and nothing with its components was in the list.
      have hmem := h
      rw [sorted_append_singleton] at hmem
      obtain rfl : p = r := (mem_of_mem_insert hmem).resolve_right hp
      refine ⟨l, [], rfl, fun q hq heq => hp ?_⟩
      obtain ⟨q', hq', heq'⟩ := exists_mem_sorted hq
      obtain rfl := eq_of_mem_sorted h (sorted_append_subset l [p] hq') (heq'.trans heq).symm
      exact hq'

/-! ### What patterns lead to -/

variable {disk : Disk} {dir : Path}

/-- The paths a pattern leads to, in the order found. -/
def yields (disk : Disk) (dir : Path) (pattern : String) : List Path :=
  match query (rooted dir pattern) with
  | .error _ => []
  | .ok q => (q.run disk).paths

/-- A path leads to a file that is not to be skipped. -/
def Chosen (disk : Disk) (ignore : List String) (dir p : Path) : Prop :=
  disk.isFile p = true ∧ ¬Skipped ignore dir p

/-- Why a pattern cannot be used: it is not well formed, or it meets a directory that cannot be
listed. -/
inductive Fails (disk : Disk) (dir : Path) (pattern : String) : PatternFault → Prop
  | misuse {m : Misuse} (h : query (rooted dir pattern) = .error m) :
      Fails disk dir pattern (.misuse m)
  | blocked {q : Query} {b : Blocked} (h : query (rooted dir pattern) = .ok q)
      (hmeets : q.Meets disk b) : Fails disk dir pattern (.blocked b)

theorem files_find (pattern : String) :
    (find disk dir pattern).files = (yields disk dir pattern).filter disk.isFile := by
  unfold find yields
  cases query (rooted dir pattern) with
  | error m => rfl
  | ok q => rfl

theorem fails_of_fault {pattern : String} {fault : PatternFault}
    (h : (find disk dir pattern).fault = some fault) : Fails disk dir pattern fault := by
  unfold find at h
  split at h
  · next m hquery =>
    obtain rfl := Option.some.inj h
    exact .misuse hquery
  · next q hquery =>
    obtain ⟨b, hb, rfl⟩ := Option.map_eq_some_iff.mp h
    exact .blocked hquery ((run_accounted q).blocked b hb)

theorem fault_eq_none_iff (hsound : disk.root.Sound) {pattern : String} :
    (find disk dir pattern).fault = none ↔ ∀ fault, ¬Fails disk dir pattern fault := by
  constructor
  · intro hnone fault hfails
    unfold find at hnone
    cases hfails with
    | misuse hquery =>
      rw [hquery] at hnone
      nomatch hnone
    | blocked hquery hmeets =>
      rw [hquery] at hnone
      exact (run_blocked_iff hsound hquery).mpr ⟨_, hmeets⟩ (Option.map_eq_none_iff.mp hnone)
  · intro hall
    by_contra hsome
    obtain ⟨fault, hfault⟩ := Option.ne_none_iff_exists'.mp hsome
    exact hall fault (fails_of_fault hfault)

/-- The first pattern that cannot be followed to its end is told. -/
theorem exists_first_of_findAll {patterns : List String} {pattern : String} {fault : PatternFault}
    (h : (findAll disk dir patterns).2 = some (pattern, fault)) :
    ∃ before after, patterns = before ++ pattern :: after ∧
      (∀ earlier ∈ before, (find disk dir earlier).fault = none) ∧
      (find disk dir pattern).fault = some fault := by
  induction patterns with
  | nil => nomatch h
  | cons first patterns ih =>
    rw [findAll_cons] at h
    cases hfirst : (find disk dir first).fault with
    | some fault' =>
      rw [hfirst] at h
      obtain ⟨rfl, rfl⟩ := Prod.mk.inj (Option.some.inj h)
      exact ⟨[], patterns, rfl, nofun, hfirst⟩
    | none =>
      rw [hfirst] at h
      obtain ⟨before, after, rfl, hbefore, hfault⟩ := ih h
      exact ⟨first :: before, after, rfl, List.forall_mem_cons.mpr ⟨hfirst, hbefore⟩, hfault⟩

/-! ### Why there is no list -/

section

variable [Ignore.Engine]

/-- A failure names the first pattern to skip that is not well formed, or, where there is none, all
patterns to skip if they cannot be put together, or else the first pattern that cannot be used, as
it was given. -/
inductive Blames (disk : Disk) (patterns ignore : List String) (dir : Path) : Failure → Prop
  | ignore {before after : List String} {glob : String} {flaw : Ignore.Flaw}
      (hsplit : ignore = before ++ glob :: after) (hbefore : Legible before)
      (hflaw : Ignore.tokens glob = .error flaw) :
      Blames disk patterns ignore dir (.pattern glob (.ignore glob flaw))
  | refused {reason : String} (hrefused : Refused ignore reason) :
      Blames disk patterns ignore dir (.pattern (", ".intercalate ignore) (.refused reason))
  | pattern {before after : List String} {pattern : String} {fault : PatternFault}
      (hlegible : Legible ignore) (hrefused : ∀ reason, ¬Refused ignore reason)
      (hsplit : patterns = before ++ pattern :: after)
      (hbefore : ∀ earlier ∈ before, ∀ fault, ¬Fails disk dir earlier fault)
      (hfault : Fails disk dir pattern fault) :
      Blames disk patterns ignore dir (.pattern pattern fault)

variable {patterns ignore : List String}

theorem blames_of_read {failure : Failure} (h : read ignore = .error failure) :
    Blames disk patterns ignore dir failure := by
  rw [read, Project.mapM_eq_error_iff] at h
  obtain ⟨before, glob, after, hsplit, hbefore, hglob⟩ := h
  cases htokens : Ignore.tokens glob with
  | ok ts =>
    rw [htokens] at hglob
    cases hglob
  | error flaw =>
    rw [htokens] at hglob
    obtain rfl := Except.error.inj hglob
    refine .ignore hsplit (fun earlier hmem => ?_) htokens
    obtain ⟨ts, hts⟩ := hbefore earlier hmem
    cases hearlier : Ignore.tokens earlier with
    | ok ts' => exact ⟨ts', rfl⟩
    | error flaw' =>
      rw [hearlier] at hts
      cases hts

theorem blames_of_ignoring {failure : Failure} (h : ignoring ignore = .error failure) :
    Blames disk patterns ignore dir failure := by
  cases hread : read ignore with
  | error failure' =>
    rw [ignoring, hread] at h
    obtain rfl := Except.error.inj h
    exact blames_of_read hread
  | ok tokens =>
    rw [ignoring_of_read hread] at h
    split at h
    · cases h
    · next reason hreason =>
      obtain rfl := Except.error.inj h
      exact .refused ⟨tokens, hread, hreason⟩

theorem blames_of_resolve (hsound : disk.root.Sound) {failure : Failure}
    (h : resolve disk patterns ignore dir = .error failure) :
    Blames disk patterns ignore dir failure := by
  unfold resolve at h
  cases hignored : ignoring ignore with
  | error failure' =>
    rw [hignored] at h
    obtain rfl := Except.error.inj h
    exact blames_of_ignoring hignored
  | ok ignored =>
    rw [hignored] at h
    simp only [Except.bind] at h
    split at h
    · next files pattern fault hfind =>
      obtain rfl := Except.error.inj h
      obtain ⟨before, after, hsplit, hbefore, hfault⟩ :=
        exists_first_of_findAll (congrArg Prod.snd hfind)
      obtain ⟨hlegible, hrefused⟩ := exists_ignoring_iff.mp ⟨ignored, hignored⟩
      refine .pattern hlegible hrefused hsplit ?_ (fails_of_fault hfault)
      exact fun earlier hmem => (fault_eq_none_iff hsound).mp (hbefore earlier hmem)
    · nomatch h

theorem exists_error_iff (hsound : disk.root.Sound) :
    (∃ failure, resolve disk patterns ignore dir = .error failure) ↔
      ¬Legible ignore ∨ (∃ reason, Refused ignore reason) ∨
        ∃ pattern ∈ patterns, ∃ fault, Fails disk dir pattern fault := by
  constructor
  · rintro ⟨failure, h⟩
    cases blames_of_resolve hsound h with
    | ignore hsplit hbefore hflaw =>
      refine .inl fun hlegible => ?_
      obtain ⟨ts, hts⟩ := hlegible _ (hsplit ▸ List.mem_append_right _ List.mem_cons_self)
      rw [hflaw] at hts
      nomatch hts
    | refused hrefused => exact .inr (.inl ⟨_, hrefused⟩)
    | pattern hlegible hrefused hsplit hbefore hfault =>
      refine .inr (.inr ⟨_, hsplit ▸ List.mem_append_right _ List.mem_cons_self, _, hfault⟩)
  · intro h
    cases hresolve : resolve disk patterns ignore dir with
    | error failure => exact ⟨failure, rfl⟩
    | ok paths =>
      obtain ⟨hfind, ignored, hignored, -⟩ := resolve_eq_ok_iff.mp hresolve
      obtain ⟨hlegible, hput⟩ := exists_ignoring_iff.mp ⟨ignored, hignored⟩
      rcases h with hillegible | ⟨reason, hrefused⟩ | ⟨pattern, hmem, fault, hfault⟩
      · exact absurd hlegible hillegible
      · exact absurd hrefused (hput reason)
      · exact absurd hfault ((fault_eq_none_iff hsound).mp (hfind pattern hmem) fault)

end

/-! ### The list -/

/-- The files that patterns lead to, less those to skip, in order and each once. -/
structure SortedUnion (disk : Disk) (patterns ignore : List String) (dir : Path)
    (paths : List Path) : Prop where
  increasing : paths.Pairwise fun p q => p.order q = .lt
  distinct : (paths.map Path.components).Nodup
  mem_iff {cs : List Path.Component} : cs ∈ paths.map Path.components ↔
    ∃ pattern ∈ patterns, ∃ q ∈ yields disk dir pattern,
      Chosen disk ignore dir q ∧ q.components = cs
  /-- Of all spellings the first one is kept, patterns being taken in their order. -/
  first {p : Path} (hp : p ∈ paths) :
    ∃ before after, patterns.flatMap (yields disk dir) = before ++ p :: after ∧
      Chosen disk ignore dir p ∧
      ∀ q ∈ before, Chosen disk ignore dir q → q.components ≠ p.components

theorem candidates_eq (ignored : List (List Ignore.Token)) :
    candidates disk patterns ignored dir = (patterns.flatMap (yields disk dir)).filter
      fun p => !isIgnored ignored dir p && disk.isFile p := by
  simp only [candidates, files_find, List.filter_flatMap, List.filter_filter]

theorem chosen_iff {ignored : List (List Ignore.Token)} (h : read ignore = .ok ignored)
    {p : Path} : (!isIgnored ignored dir p && disk.isFile p) = true ↔ Chosen disk ignore dir p := by
  rw [Bool.and_eq_true, Bool.not_eq_true', Chosen, ← isIgnored_iff h, Bool.not_eq_true, and_comm]

section

variable [Ignore.Engine]

theorem sortedUnion_of_resolve {paths : List Path}
    (h : resolve disk patterns ignore dir = .ok paths) :
    SortedUnion disk patterns ignore dir paths := by
  obtain ⟨-, ignored, hignoring, rfl⟩ := resolve_eq_ok_iff.mp h
  have hignored := read_of_ignoring hignoring
  refine ⟨pairwise_sorted _, nodup_map_components (pairwise_sorted _), ?_, ?_⟩
  · intro cs
    rw [mem_map_components_sorted, candidates_eq]
    simp only [List.mem_map, List.mem_filter, List.mem_flatMap, chosen_iff hignored]
    constructor
    · rintro ⟨q, ⟨⟨pattern, hpattern, hq⟩, hchosen⟩, rfl⟩
      exact ⟨pattern, hpattern, q, hq, hchosen, rfl⟩
    · rintro ⟨pattern, hpattern, q, hq, hchosen, rfl⟩
      exact ⟨q, ⟨⟨pattern, hpattern, hq⟩, hchosen⟩, rfl⟩
  · intro p hp
    obtain ⟨before, after, hsplit, hbefore⟩ := exists_first_of_mem_sorted hp
    rw [candidates_eq] at hsplit
    obtain ⟨front, rest, hyields, hfront, hrest⟩ := List.filter_eq_append_iff.mp hsplit
    obtain ⟨skipped, back, rfl, hskipped, hp, -⟩ := List.filter_eq_cons_iff.mp hrest
    refine ⟨front ++ skipped, back, ?_, (chosen_iff hignored).mp hp, ?_⟩
    · rw [hyields, List.append_assoc]
    -- What was found before is among the earlier candidates, or it was not one.
    intro q hq hchosen
    rcases List.mem_append.mp hq with hq | hq
    · refine hbefore q ?_
      rw [← hfront]
      exact List.mem_filter.mpr ⟨hq, (chosen_iff hignored).mpr hchosen⟩
    · exact absurd ((chosen_iff hignored).mpr hchosen) (hskipped q hq)

/-- More patterns to skip take files away and add none. -/
theorem components_subset_of_ignore {ignore' : List String} {paths paths' : List Path}
    (hsubset : ignore ⊆ ignore') (h : resolve disk patterns ignore dir = .ok paths)
    (h' : resolve disk patterns ignore' dir = .ok paths') :
    paths'.map Path.components ⊆ paths.map Path.components := by
  intro cs hcs
  obtain ⟨pattern, hpattern, q, hq, ⟨hfile, hkept⟩, rfl⟩ :=
    (sortedUnion_of_resolve h').mem_iff.mp hcs
  refine (sortedUnion_of_resolve h).mem_iff.mpr ⟨pattern, hpattern, q, hq, ⟨hfile, ?_⟩, rfl⟩
  rintro ⟨glob, hglob, hmatches⟩
  exact hkept ⟨glob, hsubset hglob, hmatches⟩

/-- More patterns behind those given add files and leave the others as they are. -/
theorem subset_of_append {more : List String} {paths paths' : List Path}
    (h : resolve disk patterns ignore dir = .ok paths)
    (h' : resolve disk (patterns ++ more) ignore dir = .ok paths') : paths ⊆ paths' := by
  obtain ⟨-, ignored, hignored, rfl⟩ := resolve_eq_ok_iff.mp h
  obtain ⟨-, ignored', hignored', rfl⟩ := resolve_eq_ok_iff.mp h'
  obtain rfl := Except.ok.inj (hignored.symm.trans hignored')
  rw [candidates_eq, candidates_eq, List.flatMap_append, List.filter_append]
  exact sorted_append_subset _ _

/-- **The files of a project are a sorted union without duplicates.**  They cannot be told iff a
pattern to skip is not well formed, the patterns to skip cannot be put together or a pattern cannot
be used, and then the first of these is named.  More patterns to skip only take files away, and more
patterns only add files. -/
theorem resolve_sorted_union (disk : Disk) (hsound : disk.root.Sound)
    (patterns ignore : List String) (dir : Path) :
    ((∃ failure, resolve disk patterns ignore dir = .error failure) ↔
      ¬Legible ignore ∨ (∃ reason, Refused ignore reason) ∨
        ∃ pattern ∈ patterns, ∃ fault, Fails disk dir pattern fault) ∧
    (∀ failure, resolve disk patterns ignore dir = .error failure →
      Blames disk patterns ignore dir failure) ∧
    ∀ paths, resolve disk patterns ignore dir = .ok paths →
      SortedUnion disk patterns ignore dir paths ∧
      (∀ ignore' paths', ignore ⊆ ignore' → resolve disk patterns ignore' dir = .ok paths' →
        paths'.map Path.components ⊆ paths.map Path.components) ∧
      ∀ more paths', resolve disk (patterns ++ more) ignore dir = .ok paths' → paths ⊆ paths' := by
  refine ⟨exists_error_iff hsound, fun _ => blames_of_resolve hsound, fun paths h => ?_⟩
  refine ⟨sortedUnion_of_resolve h, fun ignore' paths' hsubset => ?_, fun more paths' => ?_⟩
  · exact components_subset_of_ignore hsubset h
  · exact subset_of_append h

end

/-- A project beside a directory that cannot be listed. -/
def guarded : Disk where
  root := .directory [("src", .directory [("a.js", .file "// none\n".toUTF8 false)] false),
    ("vault", .directory [] true)] false

theorem sound_guarded : guarded.root.Sound := by
  refine .directory (by decide) (by decide +kernel) ?_
  rw [List.forall_mem_cons, List.forall_mem_singleton]
  constructor
  · exact .directory (by decide) (by decide +kernel) (List.forall_mem_singleton.mpr .file)
  · exact .directory (by decide) (by decide +kernel) nofun

/-- The file of the project is kept as it is spelled first.  Where the directory beside it is asked
for, that pattern is named and not the one behind it, and a pattern to skip is named before both. -/
theorem resolve_sorted_union_guarded :
    guarded.root.Sound ∧
    (resolve guarded ["src/./a.js", "src/*.js"] ["b"] ⟨"/"⟩ = .ok [⟨"/src/./a.js"⟩] ∧
      SortedUnion guarded ["src/./a.js", "src/*.js"] ["b"] ⟨"/"⟩ [⟨"/src/./a.js"⟩]) ∧
    (resolve guarded ["src/*.js", "vault/*", "***"] ["b"] ⟨"/"⟩ =
        .error (.pattern "vault/*" (.blocked ⟨⟨"/vault"⟩, .denied⟩)) ∧
      Blames guarded ["src/*.js", "vault/*", "***"] ["b"] ⟨"/"⟩
        (.pattern "vault/*" (.blocked ⟨⟨"/vault"⟩, .denied⟩))) ∧
    (resolve guarded ["vault/*", "***"] ["b", "["] ⟨"/"⟩ =
        .error (.pattern "[" (.ignore "[" .unclosedBrackets)) ∧
      Blames guarded ["vault/*", "***"] ["b", "["] ⟨"/"⟩
        (.pattern "[" (.ignore "[" .unclosedBrackets))) := by
  have hkept : resolve guarded ["src/./a.js", "src/*.js"] ["b"] ⟨"/"⟩ = .ok [⟨"/src/./a.js"⟩] := by
    decide +kernel
  have hblocked : resolve guarded ["src/*.js", "vault/*", "***"] ["b"] ⟨"/"⟩ =
      .error (.pattern "vault/*" (.blocked ⟨⟨"/vault"⟩, .denied⟩)) := by
    decide +kernel
  have hflaw : resolve guarded ["vault/*", "***"] ["b", "["] ⟨"/"⟩ =
      .error (.pattern "[" (.ignore "[" .unclosedBrackets)) := by
    decide +kernel
  refine ⟨sound_guarded, ⟨hkept, ?_⟩, ⟨hblocked, ?_⟩, hflaw, ?_⟩
  · exact ((resolve_sorted_union guarded sound_guarded _ _ _).2.2 _ hkept).1
  · exact (resolve_sorted_union guarded sound_guarded _ _ _).2.1 _ hblocked
  · exact (resolve_sorted_union guarded sound_guarded _ _ _).2.1 _ hflaw

/-- A pattern to skip that is given too often, though it is well formed and the pattern of the
project can be used. -/
theorem resolve_of_copies :
    guarded.root.Sound ∧ Legible (List.replicate 20000 bulky) ∧
      (∀ pattern ∈ ["src/*.js"], ∀ fault, ¬Fails guarded ⟨"/"⟩ pattern fault) ∧
      resolve guarded ["src/*.js"] (List.replicate 20000 bulky) ⟨"/"⟩ =
        .error (.pattern (", ".intercalate (List.replicate 20000 bulky))
          (.refused "error building NFA")) := by
  refine ⟨sound_guarded, exists_read_iff.mp ⟨_, read_replicate tokens_bulky 20000⟩, ?_,
    resolve_of_refused guarded ["src/*.js"] ⟨"/"⟩ refused_copies⟩
  rw [List.forall_mem_singleton]
  exact (fault_eq_none_iff sound_guarded).mp (by decide +kernel)

end CodeNotes.Selection
