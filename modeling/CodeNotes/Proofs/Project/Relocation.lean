import CodeNotes.Proofs.Pattern.Relocation
import CodeNotes.Proofs.Project.Selection

/-!
# Moving a project

The tree of a project is placed at two directories.  A file at one place has a *counterpart* at the
other, which is seen from there as the file is seen from here (`Counterparts`).  The two projects
select counterparts, in the same order (`resolve_of_moved`), so they have the same document
(`build_of_moved`).

The order of the files is that of their components.  The components of the directory come first in
all of them, whatever they are, and do not count.
-/

namespace CodeNotes

open Disk Node Pattern Selection

/-! ### Files and their counterparts -/

/-- Two files that are the same, each seen from its own directory. -/
structure Counterparts (d₁ d₂ : Disk) (dir₁ dir₂ p q : Path) : Prop where
  under : ∃ r, p.under? dir₁ = some r ∧ q.under? dir₂ = some r
  fileName : p.fileName? = q.fileName?
  read : d₁.readText p = d₂.readText q

section Counterparts

variable {d₁ d₂ : Disk} {dir₁ dir₂ p q p' q' : Path}

theorem Path.orderComponents_append (cs as bs : List Path.Component) :
    Path.orderComponents (cs ++ as) (cs ++ bs) = Path.orderComponents as bs := by
  induction cs with
  | nil => rfl
  | cons c cs ih =>
    have hself : c.order c = .eq := Std.ReflCmp.compare_self
    rw [List.cons_append, List.cons_append, Path.orderComponents, hself]
    exact ih

theorem Counterparts.order_eq (h : Counterparts d₁ d₂ dir₁ dir₂ p q)
    (h' : Counterparts d₁ d₂ dir₁ dir₂ p' q') : p.order p' = q.order q' := by
  obtain ⟨r, hp, hq⟩ := h.under
  obtain ⟨r', hp', hq'⟩ := h'.under
  unfold Path.order
  rw [Path.components_of_under? hp, Path.components_of_under? hp', Path.components_of_under? hq,
    Path.components_of_under? hq', Path.orderComponents_append, Path.orderComponents_append]

theorem Counterparts.isIgnored_eq (h : Counterparts d₁ d₂ dir₁ dir₂ p q)
    (ignored : List (List Ignore.Token)) : isIgnored ignored dir₁ p = isIgnored ignored dir₂ q := by
  obtain ⟨r, hp, hq⟩ := h.under
  rw [isIgnored, isIgnored, hp, hq]
  rfl

theorem Counterparts.alike [Ignore.Engine] (h : Counterparts d₁ d₂ dir₁ dir₂ p q) :
    Project.Alike (.ofDisk d₁) (.ofDisk d₂) dir₁ dir₂ p q where
  link := by
    obtain ⟨r, hp, hq⟩ := h.under
    rw [Path.relativeTo, Path.relativeTo, hp, hq]
  language := by
    have hextension : p.extension? = q.extension? := by
      rw [Path.extension?, Path.extension?, h.fileName]
    rw [Language.ofPath, Language.ofPath, hextension]
  read := FileSource.read_ofDisk_congr h.read

/-- Twins that are files are counterparts. -/
theorem counterparts_of_twin {tree : Node} {dots : Nat} (hmoved : Moved d₁ d₂ dir₁ dir₂ tree dots)
    (h : Twin tree dots dir₁ dir₂ p q) (hfile : d₁.isFile p = true) :
    Counterparts d₁ d₂ dir₁ dir₂ p q := by
  obtain ⟨r, l, n, hr, hn, rfl, rfl⟩ := h
  obtain ⟨content, locked, hkind⟩ := (hmoved.first.isFile_below hmoved.fits_first hr hn).mp hfile
  refine ⟨⟨_, hmoved.first.under?_below hr.head?, hmoved.second.under?_below hr.head?⟩, ?_, ?_⟩
  · -- A file is not the place itself, so the last component is in the tree.
    obtain ⟨m, s, rfl⟩ : ∃ m s, l = m ++ [s] := by
      rcases List.eq_nil_or_concat l with rfl | ⟨m, s, rfl⟩
      · obtain ⟨locked', hdir⟩ := (hasDirectory_nil tree).mpr hmoved.first.directory
        rw [hdir] at hkind
        nomatch hkind
      · exact ⟨m, s, List.concat_eq_append⟩
    rw [Path.fileName?, Path.fileName?, hmoved.first.components_reached hr,
      hmoved.second.components_reached hr]
    simp
  · rw [readText, readText, hmoved.first.readBytes_below hmoved.fits_first hr hn,
      hmoved.second.readBytes_below hmoved.fits_second hr hn]

theorem isFile_of_twin {tree : Node} {dots : Nat} (hmoved : Moved d₁ d₂ dir₁ dir₂ tree dots)
    (h : Twin tree dots dir₁ dir₂ p q) : d₁.isFile p = d₂.isFile q := by
  obtain ⟨r, l, n, hr, hn, rfl, rfl⟩ := h
  rw [Bool.eq_iff_iff, hmoved.first.isFile_below hmoved.fits_first hr hn,
    hmoved.second.isFile_below hmoved.fits_second hr hn]

end Counterparts

/-! ### Lists of counterparts -/

namespace Selection

variable {d₁ d₂ : Disk} {dir₁ dir₂ : Path} {tree : Node}

theorem forall₂_filter {R S : Path → Path → Prop} {f g : Path → Bool} {l l' : List Path}
    (h : List.Forall₂ R l l') (hfg : ∀ p q, R p q → f p = g q)
    (hS : ∀ p q, R p q → f p = true → S p q) : List.Forall₂ S (l.filter f) (l'.filter g) := by
  induction h with
  | nil => exact .nil
  | @cons p q l l' hpq _ ih =>
    rw [List.filter_cons, List.filter_cons, ← hfg p q hpq]
    split_ifs with hp
    · exact .cons (hS p q hpq hp) ih
    · exact ih

theorem forall₂_insert {p q : Path} {l l' : List Path} (hpq : Counterparts d₁ d₂ dir₁ dir₂ p q)
    (h : List.Forall₂ (Counterparts d₁ d₂ dir₁ dir₂) l l') :
    List.Forall₂ (Counterparts d₁ d₂ dir₁ dir₂) (insert p l) (insert q l') := by
  induction h with
  | nil => exact .cons hpq .nil
  | @cons p' q' l l' hpq' hl ih =>
    rw [insert, insert, hpq.order_eq hpq']
    cases q.order q' with
    | lt => exact .cons hpq (.cons hpq' hl)
    | eq => exact .cons hpq' hl
    | gt => exact .cons hpq' ih

theorem forall₂_sorted {l l' : List Path} (h : List.Forall₂ (Counterparts d₁ d₂ dir₁ dir₂) l l') :
    List.Forall₂ (Counterparts d₁ d₂ dir₁ dir₂) (sorted l) (sorted l') := by
  unfold sorted
  refine List.rel_foldl ?_ .nil h
  intro l l' hl p q hpq
  exact forall₂_insert hpq hl

/-! ### What is selected -/

section Find

variable {d : Disk} {dir : Path} {pattern : String} {parts : List Part}

/-- What a pattern finds, told by the parts of the directory and its own. -/
theorem find_of_readAs (h : Placed d dir tree) (hrelative : Path.isAbsolute ⟨pattern⟩ = false)
    (hparts : ReadAs pattern parts) {yield : Yield}
    (hyield : Query.run ⟨⟨"/"⟩, (dirPieces dir).map escapedPart ++ parts, meansDirectories pattern⟩ d =
      yield) :
    find d dir pattern = ⟨yield.paths.filter d.isFile, yield.blocked.map .blocked⟩ := by
  have hquery := (query_rooted h.absolute h.not_root hrelative).mpr ⟨parts, hparts, rfl⟩
  unfold find
  simp only [hquery, hyield]

/-- A pattern that cannot be read by itself cannot be read behind a directory. -/
theorem find_of_not_readAs (h : Placed d dir tree) (hrelative : Path.isAbsolute ⟨pattern⟩ = false)
    (hread : ¬∃ parts, ReadAs pattern parts) : (find d dir pattern).fault ≠ none := by
  unfold find
  cases hq : query (rooted dir pattern) with
  | error m => simp
  | ok q =>
    obtain ⟨parts, hparts, -⟩ := (query_rooted h.absolute h.not_root hrelative).mp hq
    exact absurd ⟨parts, hparts⟩ hread

end Find

/-- A pattern that stays inside fails at both places, or finds counterparts. -/
theorem find_of_moved {pattern : String} (hmoved : Moved d₁ d₂ dir₁ dir₂ tree (dotsIn pattern))
    (hpattern : StaysInside pattern) :
    ((find d₁ dir₁ pattern).fault = none ↔ (find d₂ dir₂ pattern).fault = none) ∧
      ((find d₁ dir₁ pattern).fault = none →
        List.Forall₂ (Counterparts d₁ d₂ dir₁ dir₂) (find d₁ dir₁ pattern).files
          (find d₂ dir₂ pattern).files) := by
  by_cases hread : ∃ parts, ReadAs pattern parts
  · obtain ⟨parts, hparts⟩ := hread
    have hrun := run_twins hmoved (meansDirectories pattern) (tame_of_staysInside hpattern hparts)
      (dotsOf_le hparts)
    rw [find_of_readAs hmoved.first hpattern.relative hparts rfl,
      find_of_readAs hmoved.second hpattern.relative hparts rfl]
    dsimp only
    rw [hrun.blocked_left, hrun.blocked_right]
    refine ⟨Iff.rfl, fun _ => forall₂_filter hrun.paths ?_ ?_⟩
    · exact fun p q => isFile_of_twin hmoved
    · exact fun p q => counterparts_of_twin hmoved
  · have hfault₁ := find_of_not_readAs hmoved.first hpattern.relative hread
    have hfault₂ := find_of_not_readAs hmoved.second hpattern.relative hread
    exact ⟨iff_of_false hfault₁ hfault₂, fun h => absurd h hfault₁⟩

theorem forall₂_candidates {patterns : List String}
    (h : ∀ pattern ∈ patterns, List.Forall₂ (Counterparts d₁ d₂ dir₁ dir₂)
      (find d₁ dir₁ pattern).files (find d₂ dir₂ pattern).files)
    (ignored : List (List Ignore.Token)) :
    List.Forall₂ (Counterparts d₁ d₂ dir₁ dir₂) (candidates d₁ patterns ignored dir₁)
      (candidates d₂ patterns ignored dir₂) := by
  refine forall₂_filter ?_ (fun _ _ hpq => ?_) (fun _ _ hpq _ => hpq)
  · induction patterns with
    | nil => exact .nil
    | cons pattern patterns ih =>
      rw [List.forall_mem_cons] at h
      rw [List.flatMap_cons, List.flatMap_cons]
      exact List.rel_append h.1 (ih h.2)
  · rw [hpq.isIgnored_eq]

/-- The files of a moved project cannot be told from either place, or they are counterparts. -/
theorem resolve_of_moved [Ignore.Engine] {patterns : List String} (ignore : List String)
    (hmoved : ∀ pattern ∈ patterns, Moved d₁ d₂ dir₁ dir₂ tree (dotsIn pattern))
    (hpatterns : ∀ pattern ∈ patterns, StaysInside pattern) :
    (∃ failure₁ failure₂, resolve d₁ patterns ignore dir₁ = .error failure₁ ∧
        resolve d₂ patterns ignore dir₂ = .error failure₂) ∨
      ∃ paths₁ paths₂, resolve d₁ patterns ignore dir₁ = .ok paths₁ ∧
        resolve d₂ patterns ignore dir₂ = .ok paths₂ ∧
        List.Forall₂ (Counterparts d₁ d₂ dir₁ dir₂) paths₁ paths₂ := by
  have hfind : (∀ pattern ∈ patterns, (find d₁ dir₁ pattern).fault = none) ↔
      ∀ pattern ∈ patterns, (find d₂ dir₂ pattern).fault = none :=
    forall₂_congr fun pattern hmem =>
      (find_of_moved (hmoved pattern hmem) (hpatterns pattern hmem)).1
  by_cases hok : (∀ pattern ∈ patterns, (find d₁ dir₁ pattern).fault = none) ∧
      ∃ ignored, ignoring ignore = .ok ignored
  · obtain ⟨ignored, hignored⟩ := hok.2
    refine .inr ⟨_, _, resolve_eq_ok_iff.mpr ⟨hok.1, ignored, hignored, rfl⟩,
      resolve_eq_ok_iff.mpr ⟨hfind.mp hok.1, ignored, hignored, rfl⟩, ?_⟩
    refine forall₂_sorted (forall₂_candidates (fun pattern hmem => ?_) ignored)
    exact (find_of_moved (hmoved pattern hmem) (hpatterns pattern hmem)).2 (hok.1 pattern hmem)
  · obtain ⟨failure₁, hresolve₁⟩ := Project.exists_resolve_error hok
    rw [hfind] at hok
    obtain ⟨failure₂, hresolve₂⟩ := Project.exists_resolve_error hok
    exact .inl ⟨failure₁, failure₂, hresolve₁, hresolve₂⟩

end Selection

namespace Project

/-- Two lists of files that are the same, each seen from its own directory; or no list at all. -/
def SameFiles (dir₁ dir₂ : Path) : Except Failure (List Path) → Except Failure (List Path) → Prop
  | .ok paths₁, .ok paths₂ =>
    List.Forall₂ (fun p q => ∃ r, p.under? dir₁ = some r ∧ q.under? dir₂ = some r) paths₁ paths₂
  | .error _, .error _ => True
  | _, _ => False

/-- **Moving a project does not change its document.**  A plain tree is placed at two directories
with names of any kind, and the paths in it are not too long at either.  Patterns that stay inside
select the same files at both, and the same document is made of them, or none. -/
theorem build_of_moved [Ignore.Engine] {d₁ d₂ : Disk} {dir₁ dir₂ : Path} {tree : Node}
    (hplaced₁ : Placed d₁ dir₁ tree) (hplaced₂ : Placed d₂ dir₂ tree) {patterns : List String}
    (hpatterns : ∀ pattern ∈ patterns, StaysInside pattern)
    (hfits₁ : ∀ pattern ∈ patterns, Fits (weight (placeOf dir₁)) tree (dotsIn pattern))
    (hfits₂ : ∀ pattern ∈ patterns, Fits (weight (placeOf dir₂)) tree (dotsIn pattern))
    (ignore : List String) (options : RenderOptions) :
    (build (.ofDisk d₁) options dir₁ patterns ignore).toOption =
        (build (.ofDisk d₂) options dir₂ patterns ignore).toOption ∧
      SameFiles dir₁ dir₂ (resolve d₁ patterns ignore dir₁) (resolve d₂ patterns ignore dir₂) := by
  have hmoved : ∀ pattern ∈ patterns, Moved d₁ d₂ dir₁ dir₂ tree (dotsIn pattern) :=
    fun pattern hmem => ⟨hplaced₁, hplaced₂, hfits₁ pattern hmem, hfits₂ pattern hmem⟩
  rcases resolve_of_moved ignore hmoved hpatterns with
    ⟨failure₁, failure₂, hresolve₁, hresolve₂⟩ | ⟨paths₁, paths₂, hresolve₁, hresolve₂, hpaths⟩
  · refine ⟨build_of_resolve_error hresolve₁ hresolve₂, ?_⟩
    rw [hresolve₁, hresolve₂]
    trivial
  · refine ⟨build_of_alike hresolve₁ hresolve₂ (hpaths.imp fun _ _ hpq => hpq.alike), ?_⟩
    rw [hresolve₁, hresolve₂]
    exact hpaths.imp fun _ _ hpq => hpq.under

/-! ### A script in two places -/

/-- A directory with a script in it. -/
def script : Node :=
  .directory [("a.js", .file "// Architecture Note #1: T\n".toUTF8 false)] false

/-- A disk with nothing but the script and the way to it. -/
def scriptAt (dir : Path) : Disk where
  root := nest script (placeOf dir)

theorem placed_scriptAt {dir : Path} (habs : dir.isAbsolute = true) (hroot : placeOf dir ≠ [])
    (hnamed : Named (placeOf dir)) (hsize : dir.text.utf8ByteSize < pathLimit) :
    Placed (scriptAt dir) dir script := by
  refine placed_nest ?_ ?_ ⟨false, rfl⟩ habs hroot hnamed hsize
  · refine .directory (by simp) ?_ ?_ <;> intro e he <;> obtain rfl := List.mem_singleton.mp he
    · decide
    · exact .file
  · refine .directory fun e he => ?_
    obtain rfl := List.mem_singleton.mp he
    exact .file

theorem fits_script {size dots : Nat} (h : size + 5 + 2 * dots < pathLimit) :
    Fits size script dots := by
  have hweight : weight ["a.js"] = 5 := by decide
  have hnil : weight [] = 0 := rfl
  have hat : ∀ {l : Location}, script.at? l ≠ none → l = [] ∨ l = ["a.js"] := by
    intro l hl
    rcases l with _ | ⟨s, _ | ⟨t, l⟩⟩
    · exact .inl rfl
    · by_cases hs : "a.js" = s
      · exact .inr (by rw [hs])
      · simp [script, Node.at?, child?, hs] at hl
    · by_cases hs : "a.js" = s <;> simp [script, Node.at?, child?, hs] at hl
  constructor
  · intro l hl
    rcases hat hl with rfl | rfl <;> omega
  · rintro l ⟨locked, hkind⟩
    have hne : l ≠ ["a.js"] := by
      rintro rfl
      cases hkind
    obtain rfl := (hat (kindAt_ne_none.mp (by simp [hkind]))).resolve_right hne
    omega

/-- The name of one place has wildcards in it, and so has that of the other, whose path ends with a
separator. -/
theorem build_of_script_moved :
    (resolve (scriptAt ⟨"/p[*]"⟩) ["./*.js"] ["b"] ⟨"/p[*]"⟩ = .ok [⟨"/p[*]/./a.js"⟩] ∧
      resolve (scriptAt ⟨"/q/**/"⟩) ["./*.js"] ["b"] ⟨"/q/**/"⟩ = .ok [⟨"/q/**/./a.js"⟩]) ∧
    (build (.ofDisk (scriptAt ⟨"/p[*]"⟩)) {} ⟨"/p[*]"⟩ ["./*.js"] ["b"]).toOption =
        (build (.ofDisk (scriptAt ⟨"/q/**/"⟩)) {} ⟨"/q/**/"⟩ ["./*.js"] ["b"]).toOption ∧
      SameFiles ⟨"/p[*]"⟩ ⟨"/q/**/"⟩ (resolve (scriptAt ⟨"/p[*]"⟩) ["./*.js"] ["b"] ⟨"/p[*]"⟩)
        (resolve (scriptAt ⟨"/q/**/"⟩) ["./*.js"] ["b"] ⟨"/q/**/"⟩) := by
  have hplaced₁ : Placed (scriptAt ⟨"/p[*]"⟩) ⟨"/p[*]"⟩ script :=
    placed_scriptAt (by decide) (by decide +kernel) (by decide +kernel) (by decide)
  have hplaced₂ : Placed (scriptAt ⟨"/q/**/"⟩) ⟨"/q/**/"⟩ script :=
    placed_scriptAt (by decide) (by decide +kernel) (by decide +kernel) (by decide)
  refine ⟨⟨by decide +kernel, by decide +kernel⟩,
    build_of_moved hplaced₁ hplaced₂ ?_ ?_ ?_ ["b"] {}⟩ <;>
    intro pattern hpattern <;> obtain rfl := List.mem_singleton.mp hpattern
  · decide +kernel
  · exact fits_script (by decide +kernel)
  · exact fits_script (by decide +kernel)

/-! ### A place too far away -/

/-- A name of so many letters. -/
def lettered (n : Nat) : String :=
  String.ofList (List.replicate n 'b')

theorem utf8ByteSize_lettered (n : Nat) : (lettered n).utf8ByteSize = n := by
  induction n with
  | zero => rfl
  | succ n ih =>
    have hletter : (String.ofList ['b']).utf8ByteSize = 1 := by decide
    rw [lettered] at ih ⊢
    rw [List.replicate_succ, ← List.singleton_append, String.ofList_append,
      String.utf8ByteSize_append, ih, hletter, Nat.add_comm]

theorem isName_lettered {n : Nat} (hn : n ≠ 0) (hle : n ≤ nameLimit) : IsName (lettered n) := by
  have hmem : 'b' ∈ (lettered n).toList := by simp [lettered, hn]
  refine ⟨?_, ?_, ?_, by simp [lettered], (utf8ByteSize_lettered n).trans_le hle⟩ <;> intro heq <;>
    rw [heq] at hmem <;> revert hmem <;> decide

/-- Names of a path of 4090 bytes. -/
def remoteNames : Location :=
  List.replicate 20 (lettered 200) ++ [lettered 69]

theorem named_remoteNames : Named remoteNames := by
  intro s hs
  rcases List.mem_append.mp hs with hs | hs
  · obtain rfl := List.eq_of_mem_replicate hs
    exact isName_lettered (by decide) (by decide)
  · obtain rfl := List.mem_singleton.mp hs
    exact isName_lettered (by decide) (by decide)

theorem weight_remoteNames : weight remoteNames = 4090 := by
  simp [weight, remoteNames, List.replicate_succ, utf8ByteSize_lettered]

/-- A directory so far away that `a.js` can be reached in it but `./a.js` cannot. -/
def remote : Path :=
  pathTo remoteNames

theorem placeOf_remote : placeOf remote = remoteNames :=
  names_pathTo named_remoteNames

theorem placed_remote : Placed (scriptAt remote) remote script := by
  have hne : remoteNames ≠ [] := by simp [remoteNames]
  have hnamed := named_remoteNames
  have hsize : remote.text.utf8ByteSize = 4090 :=
    (pathTo_text hnamed hne).2.trans weight_remoteNames
  rw [← placeOf_remote] at hne hnamed
  refine placed_scriptAt (isAbsolute_pathTo named_remoteNames) hne hnamed ?_
  rw [hsize]
  decide

def dotPart : Part :=
  ⟨".", [.char '.']⟩

def scriptPart : Part :=
  ⟨"a.js", [.char 'a', .char '.', .char 'j', .char 's']⟩

theorem readAs_dotPart : ReadAs "./a.js" [dotPart, scriptPart] := by
  refine ⟨by decide +kernel, ?_⟩
  have hpieces : patternPieces "./a.js" = [['.'], ['a', '.', 'j', 's']] := by decide +kernel
  rw [hpieces]
  refine .cons ⟨?_, ?_⟩ (.cons ⟨?_, ?_⟩ .nil) <;> decide +kernel

theorem resolve_ofDisk (d : Disk) (patterns ignore : List String) (dir : Path) :
    (FileSource.ofDisk d).resolve patterns ignore dir = resolve d patterns ignore dir :=
  rfl

/-- A project without files has an empty document. -/
theorem build_of_no_files {files : FileSource} {options : RenderOptions} {dir : Path}
    {patterns ignore : List String} (hoptions : checkOptions options = .ok ())
    (h : files.resolve patterns ignore dir = .ok []) :
    (build files options dir patterns ignore).toOption = some "" := by
  rw [toOption_build, collect_of_resolve_ok h, hoptions]
  simp [Except.toOption, Except.map, pure, Except.pure, Note.sort, Document.render]

/-- The path that `./a.js` leads to is too long. -/
theorem onward_remote (f : Nat) :
    onward (scriptAt remote) false (f + 2) [dotPart, scriptPart] (pathTo (placeOf remote)) =
      {} := by
  have hnamed := placed_remote.named
  have hroot := placed_remote.not_root
  have hdot : step (pathTo (placeOf remote)) "." = below (placeOf remote) "/." := by
    rw [← below_empty, step_of_isAbsolute (isAbsolute_below hnamed),
      below_push hnamed hroot (by decide)]
    rfl
  have hjs : step (below (placeOf remote) "/.") "a.js" = below (placeOf remote) "/./a.js" := by
    rw [step_of_isAbsolute (isAbsolute_below hnamed), below_push hnamed hroot (by decide)]
    rfl
  have habsent : admits (scriptAt remote) scriptPart (below (placeOf remote) "/.") = false := by
    rw [admits, if_neg (by decide), show scriptPart.text = "a.js" from rfl, hjs]
    apply presentOrLink_of_size
    rw [below, String.utf8ByteSize_append, (pathTo_text hnamed hroot).2, placeOf_remote,
      weight_remoteNames]
    decide
  rw [onward_cons, inside_of_literal rfl, show dotPart.text = "." from rfl, hdot, onward_cons,
    inside_of_literal rfl, habsent]
  simp

theorem resolve_remote : resolve (scriptAt remote) ["./a.js"] [] remote = .ok [] := by
  have hsize : weight (placeOf remote) + 1 < pathLimit := by
    rw [placeOf_remote, weight_remoteNames]
    decide
  obtain ⟨fuel, hfuel, hrun⟩ := run_rooted placed_remote hsize [dotPart, scriptPart] false
  have hlength : (placeOf remote).length = 21 := by simp [placeOf_remote, remoteNames]
  have hlimit : pathLimit = 4096 := rfl
  obtain ⟨f, rfl⟩ : ∃ f, fuel = f + 2 := ⟨fuel - 2, by omega⟩
  rw [onward_remote] at hrun
  have hfind : find (scriptAt remote) remote "./a.js" = {} :=
    find_of_readAs placed_remote (by decide) readAs_dotPart hrun
  refine resolve_eq_ok_iff.mpr ⟨?_, [], rfl, ?_⟩
  · intro pattern hpattern
    obtain rfl := List.mem_singleton.mp hpattern
    rw [hfind]
  · rw [candidates, List.flatMap_singleton, hfind]
    rfl

/-- **Paths that are too long are not found.**  The script lies at two places, and the same pattern
leads to it at the one and not at the other. -/
theorem build_of_script_remote :
    (Placed (scriptAt ⟨"/p"⟩) ⟨"/p"⟩ script ∧ Placed (scriptAt remote) remote script ∧
      StaysInside "./a.js") ∧
    (resolve (scriptAt ⟨"/p"⟩) ["./a.js"] [] ⟨"/p"⟩ = .ok [⟨"/p/./a.js"⟩] ∧
      resolve (scriptAt remote) ["./a.js"] [] remote = .ok []) ∧
    (build (.ofDisk (scriptAt ⟨"/p"⟩)) {} ⟨"/p"⟩ ["./a.js"] []).toOption =
        some "# Architecture Notes\n\n## T\n\n[See in context](./a.js#L1-L1)\n\n" ∧
      (build (.ofDisk (scriptAt remote)) {} remote ["./a.js"] []).toOption = some "" := by
  have hplaced : Placed (scriptAt ⟨"/p"⟩) ⟨"/p"⟩ script :=
    placed_scriptAt (by decide) (by decide +kernel) (by decide +kernel) (by decide)
  refine ⟨⟨hplaced, placed_remote, by decide +kernel⟩, ⟨by decide +kernel, resolve_remote⟩,
    by decide +kernel, ?_⟩
  exact build_of_no_files rfl ((resolve_ofDisk _ _ _ _).trans resolve_remote)

end Project

end CodeNotes
