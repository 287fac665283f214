import CodeNotes.Proofs.Disk.Walk
import CodeNotes.Proofs.Pattern.Engine
import CodeNotes.Proofs.Project.Alike

/-!
# The selected files as a set

Which files a project has is decided by the set of its patterns and the set of patterns of files to
skip (`resolve_eq_ok_iff`); in which order and how often they are given decides at most how a file is
spelled.  Of several spellings with the same components the sorted list keeps one, so lists of the
same files are sorted into the same components (`map_components_sorted`).

A file is read by its location, its language is told from its last component and a document sees it
by its components, so the spelling that is kept does not show: the document depends on the two sets
alone, unless the patterns of files to skip can be put together in one list and not in the other
(`build_of_same_sets`).  That can happen, because each copy of a pattern takes room of its own
(`build_of_copies`).
-/

namespace CodeNotes

/-! ### The order of paths -/

namespace Path

theorem Component.order_eq (a b : Component) :
    a.order b = compareLex (compareOn Component.rank) (compareOn Component.text) a b := by
  cases a <;> cases b <;> rfl

instance : Std.TransCmp Component.order := by
  have horder : Component.order =
      compareLex (compareOn Component.rank) (compareOn Component.text) := by
    funext a b
    exact Component.order_eq a b
  rw [horder]
  infer_instance

instance : Std.LawfulEqCmp Component.order where
  eq_of_compare {a b} h := by
    cases a <;> cases b <;> simp_all [Component.order, Component.rank]

theorem orderComponents_eq (as bs : List Component) :
    orderComponents as bs = List.compareLex Component.order as bs := by
  induction as generalizing bs with
  | nil => cases bs <;> rfl
  | cons a as ih =>
    cases bs with
    | nil => rfl
    | cons b bs =>
      rw [orderComponents, List.compareLex_cons_cons, ih]
      cases a.order b <;> rfl

theorem order_trans {p q r : Path} (hpq : p.order q = .lt) (hqr : q.order r = .lt) :
    p.order r = .lt := by
  rw [order, orderComponents_eq] at *
  exact Std.TransCmp.lt_trans hpq hqr

theorem order_swap {p q : Path} (h : p.order q = .gt) : q.order p = .lt := by
  rw [order, orderComponents_eq] at *
  exact Std.OrientedCmp.lt_of_gt h

theorem order_eq_iff {p q : Path} : p.order q = .eq ↔ p.components = q.components := by
  rw [order, orderComponents_eq, Std.LawfulEqCmp.compare_eq_iff_eq]

end Path

namespace Selection

/-! ### Sorted paths -/

theorem mem_of_mem_insert {p q : Path} {l : List Path} (h : q ∈ insert p l) : q = p ∨ q ∈ l := by
  induction l with
  | nil => exact .inl (List.mem_singleton.mp h)
  | cons r l ih =>
    rw [insert] at h
    split at h
    · exact List.mem_cons.mp h
    · exact .inr h
    · rcases List.mem_cons.mp h with rfl | h
      · exact .inr List.mem_cons_self
      · exact (ih h).imp_right (List.mem_cons_of_mem r)

theorem mem_insert_of_mem {p q : Path} {l : List Path} (h : q ∈ l) : q ∈ insert p l := by
  induction l with
  | nil => nomatch h
  | cons r l ih =>
    rw [insert]
    split
    · exact List.mem_cons_of_mem p h
    · exact h
    · rcases List.mem_cons.mp h with rfl | h
      · exact List.mem_cons_self
      · exact List.mem_cons_of_mem r (ih h)

/-- After a path is put in, one with its components is there. -/
theorem exists_mem_insert (p : Path) (l : List Path) :
    ∃ q ∈ insert p l, q.components = p.components := by
  induction l with
  | nil => exact ⟨p, List.mem_singleton_self p, rfl⟩
  | cons r l ih =>
    rw [insert]
    split
    · exact ⟨p, List.mem_cons_self, rfl⟩
    · next heq => exact ⟨r, List.mem_cons_self, (Path.order_eq_iff.mp heq).symm⟩
    · obtain ⟨q, hq, hcomponents⟩ := ih
      exact ⟨q, List.mem_cons_of_mem r hq, hcomponents⟩

theorem pairwise_insert (p : Path) {l : List Path} (h : l.Pairwise fun a b => a.order b = .lt) :
    (insert p l).Pairwise fun a b => a.order b = .lt := by
  induction l with
  | nil => exact List.pairwise_singleton _ p
  | cons r l ih =>
    obtain ⟨hr, hl⟩ := List.pairwise_cons.mp h
    rw [insert]
    split
    · next hlt =>
      refine List.pairwise_cons.mpr ⟨?_, h⟩
      intro q hq
      rcases List.mem_cons.mp hq with rfl | hq
      · exact hlt
      · exact Path.order_trans hlt (hr q hq)
    · exact h
    · next hgt =>
      refine List.pairwise_cons.mpr ⟨?_, ih hl⟩
      intro q hq
      rcases mem_of_mem_insert hq with rfl | hq
      · exact Path.order_swap hgt
      · exact hr q hq

theorem sorted_append_singleton (l : List Path) (p : Path) :
    sorted (l ++ [p]) = insert p (sorted l) := by
  rw [sorted, List.foldl_append]
  rfl

theorem pairwise_sorted (l : List Path) : (sorted l).Pairwise fun a b => a.order b = .lt := by
  induction l using List.reverseRecOn with
  | nil => exact List.Pairwise.nil
  | append_singleton l p ih =>
    rw [sorted_append_singleton]
    exact pairwise_insert p ih

theorem mem_of_mem_sorted {l : List Path} {q : Path} (h : q ∈ sorted l) : q ∈ l := by
  induction l using List.reverseRecOn with
  | nil => exact h
  | append_singleton l p ih =>
    rw [sorted_append_singleton] at h
    rcases mem_of_mem_insert h with rfl | h
    · exact List.mem_append_right l (List.mem_singleton_self q)
    · exact List.mem_append_left [p] (ih h)

/-- Every path of a list has a spelling in the sorted list. -/
theorem exists_mem_sorted {l : List Path} {p : Path} (h : p ∈ l) :
    ∃ q ∈ sorted l, q.components = p.components := by
  induction l using List.reverseRecOn with
  | nil => nomatch h
  | append_singleton l r ih =>
    rw [sorted_append_singleton]
    rcases List.mem_append.mp h with h | h
    · obtain ⟨q, hq, hcomponents⟩ := ih h
      exact ⟨q, mem_insert_of_mem hq, hcomponents⟩
    · obtain rfl := List.mem_singleton.mp h
      exact exists_mem_insert p (sorted l)

theorem mem_map_components_sorted {l : List Path} {cs : List Path.Component} :
    cs ∈ (sorted l).map Path.components ↔ cs ∈ l.map Path.components := by
  rw [List.mem_map, List.mem_map]
  constructor
  · rintro ⟨p, hp, rfl⟩
    exact ⟨p, mem_of_mem_sorted hp, rfl⟩
  · rintro ⟨p, hp, rfl⟩
    exact exists_mem_sorted hp

/-- **Lists of the same files are sorted into the same components.** -/
theorem map_components_sorted {l₁ l₂ : List Path}
    (h : ∀ cs, cs ∈ l₁.map Path.components ↔ cs ∈ l₂.map Path.components) :
    (sorted l₁).map Path.components = (sorted l₂).map Path.components := by
  have hsorted : ∀ l : List Path,
      ((sorted l).map Path.components).Pairwise fun a b => Path.orderComponents a b = .lt :=
    fun l => List.pairwise_map.mpr (pairwise_sorted l)
  have hnodup : ∀ l : List Path, ((sorted l).map Path.components).Nodup := by
    intro l
    refine (hsorted l).imp ?_
    rintro a _ hlt rfl
    rw [Path.orderComponents_eq] at hlt
    exact Std.OrientedCmp.not_lt_of_lt hlt hlt
  refine List.Perm.eq_of_pairwise ?_ (hsorted l₁) (hsorted l₂) ?_
  · intro a b _ _ hab hba
    rw [Path.orderComponents_eq] at hab hba
    exact absurd hba (Std.OrientedCmp.not_lt_of_lt hab)
  · rw [List.perm_ext_iff_of_nodup (hnodup l₁) (hnodup l₂)]
    intro cs
    rw [mem_map_components_sorted, mem_map_components_sorted, h]

/-! ### Patterns of files to skip -/

theorem read_eq_ok_iff {ignore : List String} {ignored : List (List Ignore.Token)} :
    read ignore = .ok ignored ↔
      List.Forall₂ (fun pattern ts => Ignore.tokens pattern = .ok ts) ignore ignored := by
  rw [read, Project.mapM_eq_ok_iff]
  constructor <;> refine List.Forall₂.imp fun pattern ts => ?_
  · cases Ignore.tokens pattern <;> simp
  · cases Ignore.tokens pattern <;> simp

/-- All patterns of files to skip are well formed. -/
def Legible (ignore : List String) : Prop :=
  ∀ pattern ∈ ignore, ∃ ts, Ignore.tokens pattern = .ok ts

/-- One of the patterns of files to skip matches a path as seen from a directory. -/
def Skipped (ignore : List String) (dir p : Path) : Prop :=
  ∃ pattern ∈ ignore, ∃ ts, Ignore.tokens pattern = .ok ts ∧
    Ignore.matchesText ts ((p.under? dir).getD p).text = true

theorem exists_read_iff {ignore : List String} :
    (∃ ignored, read ignore = .ok ignored) ↔ Legible ignore := by
  simp only [read_eq_ok_iff, Legible]
  induction ignore with
  | nil => simp
  | cons pattern ignore ih =>
    simp only [List.forall₂_cons_left_iff, List.forall_mem_cons, ← ih]
    constructor
    · rintro ⟨_, ts, ignored, hts, hignored, rfl⟩
      exact ⟨⟨ts, hts⟩, ignored, hignored⟩
    · rintro ⟨⟨ts, hts⟩, ignored, hignored⟩
      exact ⟨ts :: ignored, ts, ignored, hts, hignored, rfl⟩

theorem isIgnored_iff {ignore : List String} {ignored : List (List Ignore.Token)} {dir p : Path}
    (h : read ignore = .ok ignored) : isIgnored ignored dir p ↔ Skipped ignore dir p := by
  rw [read_eq_ok_iff] at h
  unfold isIgnored Skipped
  induction h with
  | nil => simp
  | @cons pattern ts ignore ignored hts _ ih =>
    simp only [List.any_cons, Bool.or_eq_true, List.exists_mem_cons_iff, ih]
    simp [hts]

theorem read_replicate {pattern : String} {ts : List Ignore.Token}
    (h : Ignore.tokens pattern = .ok ts) (n : Nat) :
    read (List.replicate n pattern) = .ok (List.replicate n ts) := by
  rw [read_eq_ok_iff]
  induction n with
  | zero => exact .nil
  | succ n ih => exact .cons h ih

section

variable [Ignore.Engine]

/-- The patterns of files to skip are well formed but cannot be put together, for a reason in
words. -/
def Refused (ignore : List String) (reason : String) : Prop :=
  ∃ tokens, read ignore = .ok tokens ∧ Ignore.Engine.refusal? tokens = some reason

theorem refused_iff {ignore : List String} {ignored : List (List Ignore.Token)} {reason : String}
    (h : read ignore = .ok ignored) :
    Refused ignore reason ↔ Ignore.Engine.refusal? ignored = some reason := by
  constructor
  · rintro ⟨tokens, htokens, hreason⟩
    obtain rfl := Except.ok.inj (h.symm.trans htokens)
    exact hreason
  · exact fun hreason => ⟨ignored, h, hreason⟩

theorem ignoring_of_read {ignore : List String} {ignored : List (List Ignore.Token)}
    (h : read ignore = .ok ignored) :
    ignoring ignore =
      match Ignore.Engine.refusal? ignored with
      | none => .ok ignored
      | some reason => .error (.pattern (", ".intercalate ignore) (.refused reason)) := by
  rw [ignoring, h]
  rfl

theorem ignoring_of_refused {ignore : List String} {reason : String} (h : Refused ignore reason) :
    ignoring ignore = .error (.pattern (", ".intercalate ignore) (.refused reason)) := by
  obtain ⟨tokens, htokens, hreason⟩ := h
  rw [ignoring_of_read htokens, hreason]

theorem read_of_ignoring {ignore : List String} {ignored : List (List Ignore.Token)}
    (h : ignoring ignore = .ok ignored) : read ignore = .ok ignored := by
  cases hread : read ignore with
  | error failure =>
    rw [ignoring, hread] at h
    nomatch h
  | ok tokens =>
    rw [ignoring_of_read hread] at h
    split at h
    · exact h
    · nomatch h

/-- The patterns of files to skip can be used iff each is well formed and they can be put
together. -/
theorem exists_ignoring_iff {ignore : List String} :
    (∃ ignored, ignoring ignore = .ok ignored) ↔
      Legible ignore ∧ ∀ reason, ¬Refused ignore reason := by
  constructor
  · rintro ⟨ignored, h⟩
    refine ⟨exists_read_iff.mp ⟨ignored, read_of_ignoring h⟩, fun reason hrefused => ?_⟩
    rw [ignoring_of_refused hrefused] at h
    nomatch h
  · rintro ⟨hlegible, hrefused⟩
    obtain ⟨ignored, hread⟩ := exists_read_iff.mpr hlegible
    refine ⟨ignored, ?_⟩
    rw [ignoring_of_read hread]
    cases hreason : Ignore.Engine.refusal? ignored with
    | none => rfl
    | some reason => exact absurd ⟨ignored, hread, hreason⟩ (hrefused reason)

end

/-- Texts can be put together however many they are. -/
theorem not_refused_of_fixed {ignore : List String} {ignored : List (List Ignore.Token)}
    (hread : read ignore = .ok ignored)
    (h : ∀ ts ∈ ignored, Ignore.Automaton.isFront ts = true ∨ Ignore.Automaton.isBack ts = true) :
    ¬∃ reason, Refused ignore reason := by
  rintro ⟨reason, hrefused⟩
  have hnone : Ignore.Engine.refusal? ignored = none := Ignore.Automaton.refusal?_of_fixed h
  rw [refused_iff hread, hnone] at hrefused
  nomatch hrefused

/-- A pattern that takes much room in an automaton. -/
def bulky : String := "x************"

theorem tokens_bulky :
    Ignore.tokens bulky = .ok (.char 'x' :: List.replicate 12 .anyRun) := by
  rfl

theorem refused_copies : Refused (List.replicate 20000 bulky) "error building NFA" := by
  rw [refused_iff (read_replicate tokens_bulky 20000)]
  exact Ignore.Automaton.refusal?_replicate (by decide) (by decide) (by decide +kernel)

/-! ### Patterns of files -/

variable {disk : Disk} {dir : Path}

theorem findAll_cons (disk : Disk) (dir : Path) (pattern : String) (rest : List String) :
    findAll disk dir (pattern :: rest) =
      match (find disk dir pattern).fault with
      | some fault => ((find disk dir pattern).files, some (pattern, fault))
      | none =>
        ((find disk dir pattern).files ++ (findAll disk dir rest).1, (findAll disk dir rest).2) := by
  rfl

theorem findAll_eq {patterns : List String}
    (h : ∀ pattern ∈ patterns, (find disk dir pattern).fault = none) :
    findAll disk dir patterns =
      (patterns.flatMap fun pattern => (find disk dir pattern).files, none) := by
  induction patterns with
  | nil => rfl
  | cons pattern patterns ih =>
    obtain ⟨hpattern, hpatterns⟩ := List.forall_mem_cons.mp h
    simp only [findAll_cons, hpattern, ih hpatterns, List.flatMap_cons]

theorem findAll_fault {patterns : List String} {pattern : String} (hmem : pattern ∈ patterns)
    (h : (find disk dir pattern).fault ≠ none) : (findAll disk dir patterns).2 ≠ none := by
  induction patterns with
  | nil => nomatch hmem
  | cons first patterns ih =>
    rw [findAll_cons]
    cases hfirst : (find disk dir first).fault with
    | some fault => simp
    | none =>
      have hmem : pattern ∈ patterns := by
        rcases List.mem_cons.mp hmem with rfl | hmem
        · exact absurd hfirst h
        · exact hmem
      exact ih hmem

/-- The files that patterns stand for, less those to skip, in the order found. -/
def candidates (disk : Disk) (patterns : List String) (ignored : List (List Ignore.Token))
    (dir : Path) : List Path :=
  (patterns.flatMap fun pattern => (find disk dir pattern).files).filter
    fun p => !isIgnored ignored dir p

/-- The files of a project can be told iff every pattern is well formed and can be followed. -/
theorem resolve_eq_ok_iff [Ignore.Engine] {patterns ignore : List String} {paths : List Path} :
    resolve disk patterns ignore dir = .ok paths ↔
      (∀ pattern ∈ patterns, (find disk dir pattern).fault = none) ∧
        ∃ ignored, ignoring ignore = .ok ignored ∧
          paths = sorted (candidates disk patterns ignored dir) := by
  unfold resolve
  cases hignore : ignoring ignore with
  | error failure => simp [Except.bind]
  | ok ignored =>
    by_cases hfind : ∀ pattern ∈ patterns, (find disk dir pattern).fault = none
    · simp only [Except.bind, findAll_eq hfind]
      constructor
      · intro h
        exact ⟨hfind, ignored, rfl, (Except.ok.inj h).symm⟩
      · rintro ⟨-, ignored', hignored', rfl⟩
        obtain rfl := Except.ok.inj hignored'
        rfl
    · constructor
      · intro h
        obtain ⟨pattern, hmem, hfault⟩ : ∃ pattern ∈ patterns, (find disk dir pattern).fault ≠ none := by
          simpa using hfind
        have hfault := findAll_fault hmem hfault
        simp only [Except.bind] at h
        split at h
        · nomatch h
        · next hnone => exact absurd (congrArg Prod.snd hnone) hfault
      · rintro ⟨hall, -⟩
        exact absurd hall hfind

theorem resolve_of_refused [Ignore.Engine] (disk : Disk) (patterns : List String) (dir : Path)
    {ignore : List String} {reason : String} (h : Refused ignore reason) :
    resolve disk patterns ignore dir =
      .error (.pattern (", ".intercalate ignore) (.refused reason)) := by
  rw [resolve, ignoring_of_refused h]
  rfl

theorem isFile_of_mem_find {pattern : String} {p : Path} (h : p ∈ (find disk dir pattern).files) :
    disk.isFile p = true := by
  unfold find at h
  split at h
  · nomatch h
  · exact (List.mem_filter.mp h).2

theorem mem_candidates_iff {patterns ignore : List String} {ignored : List (List Ignore.Token)}
    {p : Path} (h : read ignore = .ok ignored) :
    p ∈ candidates disk patterns ignored dir ↔
      (∃ pattern ∈ patterns, p ∈ (find disk dir pattern).files) ∧ ¬Skipped ignore dir p := by
  rw [candidates, List.mem_filter, List.mem_flatMap, Bool.not_eq_true', ← isIgnored_iff h,
    Bool.not_eq_true]

theorem isFile_of_mem_candidates {patterns : List String} {ignored : List (List Ignore.Token)}
    {p : Path} (h : p ∈ candidates disk patterns ignored dir) : disk.isFile p = true := by
  obtain ⟨pattern, -, hp⟩ := List.mem_flatMap.mp (List.mem_filter.mp h).1
  exact isFile_of_mem_find hp

end Selection

/-! ### The document -/

namespace Disk

variable {d : Disk} {p q : Path}

theorem exists_locate_of_isFile (h : d.isFile p = true) : ∃ l, d.locate p = .ok l := by
  unfold isFile node at h
  cases hl : d.locate p with
  | error fault => simp [hl, Except.bind] at h
  | ok l => exact ⟨l, rfl⟩

/-- Spellings of one file have the same text. -/
theorem readText_congr (hcomponents : p.components = q.components) (hp : d.isFile p = true)
    (hq : d.isFile q = true) : d.readText p = d.readText q := by
  obtain ⟨l, hl⟩ := exists_locate_of_isFile hp
  obtain ⟨m, hm⟩ := exists_locate_of_isFile hq
  obtain rfl := locate_congr hcomponents hl hm
  have hnode : d.node p = d.node q := by
    unfold node
    rw [hl, hm]
  unfold readText readBytes
  rw [hnode]

end Disk

namespace Project

open Selection

variable {disk : Disk} {dir : Path} {options : RenderOptions}

section

variable [Ignore.Engine]

theorem alike_of_components {p q : Path} (hcomponents : p.components = q.components)
    (hp : disk.isFile p = true) (hq : disk.isFile q = true) :
    Alike (.ofDisk disk) (.ofDisk disk) dir dir p q where
  link := Path.linkText_relativeTo_congr hcomponents dir
  language := by rw [Language.ofPath, Language.ofPath, Path.extension?_congr hcomponents]
  read := FileSource.read_ofDisk_congr (Disk.readText_congr hcomponents hp hq)

theorem forall₂_alike {paths₁ paths₂ : List Path}
    (hcomponents : paths₁.map Path.components = paths₂.map Path.components)
    (hfiles₁ : ∀ p ∈ paths₁, disk.isFile p = true) (hfiles₂ : ∀ p ∈ paths₂, disk.isFile p = true) :
    List.Forall₂ (Alike (.ofDisk disk) (.ofDisk disk) dir dir) paths₁ paths₂ := by
  induction paths₁ generalizing paths₂ with
  | nil =>
    obtain rfl := List.map_eq_nil_iff.mp hcomponents.symm
    exact .nil
  | cons p paths₁ ih =>
    cases paths₂ with
    | nil => nomatch hcomponents
    | cons q paths₂ =>
      obtain ⟨hhead, htail⟩ := List.cons.inj hcomponents
      rw [List.forall_mem_cons] at hfiles₁ hfiles₂
      exact .cons (alike_of_components hhead hfiles₁.1 hfiles₂.1) (ih htail hfiles₁.2 hfiles₂.2)

theorem exists_resolve_error {patterns ignore : List String}
    (h : ¬((∀ pattern ∈ patterns, (find disk dir pattern).fault = none) ∧
      ∃ ignored, ignoring ignore = .ok ignored)) :
    ∃ failure, resolve disk patterns ignore dir = .error failure := by
  cases hresolve : resolve disk patterns ignore dir with
  | error failure => exact ⟨failure, rfl⟩
  | ok paths =>
    obtain ⟨hfind, ignored, hignored, -⟩ := resolve_eq_ok_iff.mp hresolve
    exact absurd ⟨hfind, ignored, hignored⟩ h

theorem build_of_refused {patterns ignore : List String} {reason : String}
    (h : Refused ignore reason) :
    (build (.ofDisk disk) options dir patterns ignore).toOption = none := by
  rw [toOption_build, collect_of_resolve_error (resolve_of_refused disk patterns dir h)]
  cases checkOptions options <;> rfl

/-- **How patterns are listed does not show.**  Two lists of patterns with the same members and two
lists of patterns to skip with the same members give the same document, or both give none, provided
that both lists of patterns to skip can be put together or neither can. -/
theorem build_of_same_sets {patterns₁ patterns₂ ignore₁ ignore₂ : List String}
    (hpatterns : ∀ pattern, pattern ∈ patterns₁ ↔ pattern ∈ patterns₂)
    (hignore : ∀ pattern, pattern ∈ ignore₁ ↔ pattern ∈ ignore₂)
    (hrefused : (∃ reason, Refused ignore₁ reason) ↔ ∃ reason, Refused ignore₂ reason) :
    (build (.ofDisk disk) options dir patterns₁ ignore₁).toOption =
      (build (.ofDisk disk) options dir patterns₂ ignore₂).toOption := by
  have hfind : (∀ pattern ∈ patterns₁, (find disk dir pattern).fault = none) ↔
      ∀ pattern ∈ patterns₂, (find disk dir pattern).fault = none := by
    simp only [hpatterns]
  have hignoring : (∃ ignored, ignoring ignore₁ = .ok ignored) ↔
      ∃ ignored, ignoring ignore₂ = .ok ignored := by
    simp only [exists_ignoring_iff, ← not_exists, hrefused, Legible, hignore]
  -- Both lists of files can be told or neither can.
  by_cases hok : (∀ pattern ∈ patterns₁, (find disk dir pattern).fault = none) ∧
      ∃ ignored, ignoring ignore₁ = .ok ignored
  · obtain ⟨ignored₁, hignored₁⟩ := hok.2
    obtain ⟨ignored₂, hignored₂⟩ := hignoring.mp hok.2
    have hresolve₁ := resolve_eq_ok_iff.mpr ⟨hok.1, ignored₁, hignored₁, rfl⟩
    have hresolve₂ := resolve_eq_ok_iff.mpr ⟨hfind.mp hok.1, ignored₂, hignored₂, rfl⟩
    -- The same spellings are found, though not in the same order.
    have hmem : ∀ p, p ∈ candidates disk patterns₁ ignored₁ dir ↔
        p ∈ candidates disk patterns₂ ignored₂ dir := by
      intro p
      rw [mem_candidates_iff (read_of_ignoring hignored₁),
        mem_candidates_iff (read_of_ignoring hignored₂)]
      simp only [hpatterns, Skipped, hignore]
    have hcomponents : (sorted (candidates disk patterns₁ ignored₁ dir)).map Path.components =
        (sorted (candidates disk patterns₂ ignored₂ dir)).map Path.components := by
      apply map_components_sorted
      intro cs
      simp only [List.mem_map, hmem]
    refine build_of_alike hresolve₁ hresolve₂ (forall₂_alike hcomponents ?_ ?_)
    · exact fun p hp => isFile_of_mem_candidates (mem_of_mem_sorted hp)
    · exact fun p hp => isFile_of_mem_candidates (mem_of_mem_sorted hp)
  · obtain ⟨failure₁, hresolve₁⟩ := exists_resolve_error hok
    rw [hfind, hignoring] at hok
    obtain ⟨failure₂, hresolve₂⟩ := exists_resolve_error hok
    exact build_of_resolve_error hresolve₁ hresolve₂

end

/-- A project with one file below a directory. -/
def nested : Disk where
  root := .directory [("src", .directory [("a.js", .file "// none\n".toUTF8 false)] false)] false

/-- Two lists of the same patterns make the project keep different spellings of its file. -/
theorem build_of_two_spellings :
    (resolve nested ["src/./a.js", "src/*.js"] ["b"] ⟨"/"⟩ = .ok [⟨"/src/./a.js"⟩] ∧
      resolve nested ["src/*.js", "src/./a.js", "src/*.js"] ["b", "b"] ⟨"/"⟩ = .ok [⟨"/src/a.js"⟩]) ∧
    (build (.ofDisk nested) {} ⟨"/"⟩ ["src/./a.js", "src/*.js"] ["b"]).toOption =
      (build (.ofDisk nested) {} ⟨"/"⟩ ["src/*.js", "src/./a.js", "src/*.js"] ["b", "b"]).toOption := by
  have hrefused : ∀ n, ¬∃ reason, Refused (List.replicate n "b") reason := by
    intro n
    have htokens : Ignore.tokens "b" = .ok [.char 'b'] := rfl
    refine not_refused_of_fixed (read_replicate htokens n) fun ts hts => ?_
    rw [List.eq_of_mem_replicate hts]
    exact .inl rfl
  refine ⟨⟨by decide +kernel, by decide +kernel⟩, build_of_same_sets ?_ ?_ ?_⟩
  · intro pattern
    simp [or_comm]
  · intro pattern
    simp
  · exact iff_of_false (hrefused 1) (hrefused 2)

/-- A project with a note. -/
def annotated : Disk where
  root := .directory
    [("a.js", .file "// Architecture Note #1: T\n".toUTF8 false)] false

/-- A pattern of files to skip that matches no file of the project can be given once, but not
twenty thousand times. -/
theorem build_of_copies :
    (∀ pattern, pattern ∈ [bulky] ↔ pattern ∈ List.replicate 20000 bulky) ∧
      (build (.ofDisk annotated) {} ⟨"/"⟩ ["a.js"] [bulky]).toOption =
        some "# Architecture Notes\n\n## T\n\n[See in context](./a.js#L1-L1)\n\n" ∧
      (build (.ofDisk annotated) {} ⟨"/"⟩ ["a.js"] (List.replicate 20000 bulky)).toOption =
        none := by
  refine ⟨fun pattern => ?_, by decide +kernel, ?_⟩
  · rw [List.mem_singleton, List.mem_replicate, and_iff_right (by decide)]
  · exact build_of_refused refused_copies

end Project

end CodeNotes
