import CodeNotes.Path.Relative
import Mathlib.Data.List.Forall2
import Mathlib.Tactic.SplitIfs

/-!
# What the components of a path decide

Cutting a directory off the front of a path succeeds iff its components stand in front of those of
the path, and the rest has the components that follow (`isSome_under?`, `components_of_under?`).  So
two spellings with the same components are seen from a directory in the same way
(`linkText_relativeTo_congr`), however many separators and `.` steps they are written with.  What is
seen has no characters but those of the path, slashes and dots (`forall_mem_linkText_relativeTo`).
-/

namespace CodeNotes.Path

/-! ### Pieces -/

theorem pieces_ne_nil (cs : List Char) : pieces cs ≠ [] :=
  List.splitOnP_ne_nil _ cs

theorem pieces_append (a b : List Char) : pieces (a ++ '/' :: b) = pieces a ++ pieces b :=
  List.splitOnP_append_cons a b (beq_self_eq_true '/')

theorem pieces_slash_cons (cs : List Char) : pieces ('/' :: cs) = [] :: pieces cs :=
  pieces_append [] cs

theorem pieces_cons_of_ne {c : Char} (cs : List Char) (h : c ≠ '/') :
    pieces (c :: cs) = (pieces cs).modifyHead (c :: ·) := by
  have hc : (c == '/') = false := beq_eq_false_iff_ne.mpr h
  rw [pieces, List.splitOn, List.splitOnP_cons_eq_if_modifyHead, hc]
  rfl

theorem pieces_append_of_not_mem {w : List Char} (cs : List Char) (h : '/' ∉ w) :
    pieces (w ++ cs) = (pieces cs).modifyHead (w ++ ·) := by
  induction w with
  | nil =>
    cases hp : pieces cs with
    | nil => exact absurd hp (pieces_ne_nil cs)
    | cons first rest => simp [hp]
  | cons c w ih =>
    have hc : c ≠ '/' := fun heq => h (by simp [heq])
    have hw : '/' ∉ w := fun hmem => h (List.mem_cons_of_mem c hmem)
    rw [List.cons_append, pieces_cons_of_ne _ hc, ih hw]
    cases pieces cs <;> rfl

theorem pieces_joinPieces {l : List (List Char)} (hne : l ≠ []) (hl : ∀ x ∈ l, '/' ∉ x) :
    pieces (joinPieces l) = l :=
  List.splitOn_intercalate '/' hl hne

theorem pieces_of_not_mem {cs : List Char} (h : '/' ∉ cs) : pieces cs = [cs] := by
  have hjoin := pieces_joinPieces (l := [cs]) (by simp) (by simpa using h)
  rwa [joinPieces, List.intercalate_singleton] at hjoin

theorem slash_not_mem_of_mem_pieces {cs x : List Char} (h : x ∈ pieces cs) : '/' ∉ x := by
  induction cs generalizing x with
  | nil =>
    obtain rfl := List.mem_singleton.mp h
    exact List.not_mem_nil
  | cons c cs ih =>
    by_cases hc : c = '/'
    · subst hc
      rw [pieces_slash_cons] at h
      rcases List.mem_cons.mp h with rfl | h
      · exact List.not_mem_nil
      · exact ih h
    · rw [pieces_cons_of_ne cs hc] at h
      cases hp : pieces cs with
      | nil => exact absurd hp (pieces_ne_nil cs)
      | cons first rest =>
        rw [hp] at h ih
        rcases List.mem_cons.mp h with rfl | h
        · have hfirst := ih List.mem_cons_self
          simp [hfirst, Ne.symm hc]
        · exact ih (List.mem_cons_of_mem first h)

/-! ### Components -/

theorem inner?_eq_none_iff {x : List Char} : inner? x = none ↔ x = [] ∨ x = ['.'] := by
  unfold inner?
  split_ifs <;> simp_all

theorem inner?_name {s : String} (hne : s ≠ "") (hdot : s ≠ ".") (hup : s ≠ "..") :
    inner? s.toList = some (.name s) := by
  have hlist : ∀ t : String, s ≠ t → s.toList ≠ t.toList := fun t h heq => h (String.toList_inj.mp heq)
  have hne' : s.toList ≠ [] := hlist "" hne
  have hdot' : s.toList ≠ ['.'] := hlist "." hdot
  have hup' : s.toList ≠ ['.', '.'] := hlist ".." hup
  simp [inner?, hne', hdot', hup']

theorem first_piece_of_isAbsolute {p : Path} {first : List Char} {rest : List (List Char)}
    (habs : p.isAbsolute = true) (hp : pieces p.text.toList = first :: rest) : first = [] := by
  cases htext : p.text.toList with
  | nil => simp [isAbsolute, htext] at habs
  | cons c cs =>
    obtain rfl : c = '/' := by simpa [isAbsolute, htext] using habs
    rw [htext, pieces_slash_cons] at hp
    exact (List.cons.inj hp).1.symm

/-- A path is empty, or it has one component for its start and one for each later piece that says
something. -/
theorem components_cases (p : Path) :
    p.text.toList = [] ∧ p.components = [] ∨
      ∃ c, p.components = c :: (pieces p.text.toList).tail.filterMap inner? := by
  cases hp : pieces p.text.toList with
  | nil => exact absurd hp (pieces_ne_nil _)
  | cons first rest =>
    by_cases habs : p.isAbsolute
    · exact .inr ⟨.root, by simp [components, hp, habs]⟩
    by_cases hdot : first = ['.']
    · exact .inr ⟨.current, by simp [components, hp, habs, hdot]⟩
    cases hfirst : inner? first with
    | some c => exact .inr ⟨c, by simp [components, hp, habs, hdot, hfirst]⟩
    | none =>
      -- The first piece is empty, so the text starts with a separator or is empty itself.
      obtain rfl : first = [] := (inner?_eq_none_iff.mp hfirst).resolve_right hdot
      cases htext : p.text.toList with
      | nil =>
        rw [htext] at hp
        obtain ⟨-, rfl⟩ := List.cons.inj hp
        exact .inl ⟨rfl, by simp [components, htext, habs, pieces, inner?]⟩
      | cons c cs =>
        have hc : c ≠ '/' := by
          rintro rfl
          exact habs (by simp [isAbsolute, htext])
        rw [htext, pieces_cons_of_ne cs hc] at hp
        cases hcs : pieces cs with
        | nil => exact absurd hcs (pieces_ne_nil cs)
        | cons x l =>
          rw [hcs] at hp
          nomatch hp

theorem components_of_pieces {p : Path} {first : List Char} {rest : List (List Char)}
    (hp : pieces p.text.toList = first :: rest) (hfirst : inner? first ≠ none) :
    p.components = (first :: rest).filterMap inner? := by
  obtain ⟨c, hc⟩ := Option.ne_none_iff_exists'.mp hfirst
  have hne : first ≠ [] ∧ first ≠ ['.'] := by
    rw [← not_or, ← inner?_eq_none_iff, hc]
    simp
  have habs : ¬p.isAbsolute := fun habs => hne.1 (first_piece_of_isAbsolute habs hp)
  simp [components, hp, habs, hne.2, hc]

theorem isAbsolute_iff (p : Path) : p.isAbsolute ↔ p.components.head? = some .root := by
  unfold components
  cases hp : pieces p.text.toList with
  | nil => exact absurd hp (pieces_ne_nil _)
  | cons first rest =>
    by_cases habs : p.isAbsolute
    · simp [habs]
    have hroot : ∀ x, inner? x ≠ some .root := by
      intro x
      unfold inner?
      split_ifs <;> simp
    have hrest : (rest.filterMap inner?).head? ≠ some .root := by
      intro h
      obtain ⟨x, -, hx⟩ := List.mem_filterMap.mp (List.mem_of_head? h)
      exact hroot x hx
    by_cases hdot : first = ['.']
    · simp [habs, hdot]
    cases hfirst : inner? first with
    | none => simpa [habs, hdot, hfirst] using hrest
    | some c =>
      have hc : c ≠ .root := fun h => hroot first (h ▸ hfirst)
      simpa [habs, hdot, hfirst] using hc

theorem isAbsolute_congr {p q : Path} (h : p.components = q.components) :
    p.isAbsolute = q.isAbsolute := by
  rw [Bool.eq_iff_iff, isAbsolute_iff, isAbsolute_iff, h]

/-! ### Appending -/

theorem pieces_push {p : Path} {part : String} (hne : p.text ≠ "")
    (hpart : part.toList.head? ≠ some '/') :
    ∃ front, front ≠ [] ∧
      (pieces p.text.toList = front ∨ pieces p.text.toList = front ++ [[]]) ∧
      pieces (p.push part).text.toList = front ++ pieces part.toList := by
  have hne' : p.text.toList ≠ [] := by simpa using hne
  rw [push, if_neg (by simpa using hpart)]
  by_cases hlast : p.text.toList.getLast? = some '/'
  · obtain ⟨cs, hcs⟩ := List.getLast?_eq_some_iff.mp hlast
    refine ⟨pieces cs, pieces_ne_nil cs, .inr ?_, ?_⟩
    · rw [hcs, pieces_append]
      rfl
    · rw [if_pos (by simp [hlast]), String.toList_append, hcs, List.append_assoc,
        List.singleton_append, pieces_append]
  · refine ⟨pieces p.text.toList, pieces_ne_nil _, .inl rfl, ?_⟩
    rw [if_neg (by simp [hlast, hne]), String.toList_append, String.toList_append, List.append_assoc]
    exact pieces_append _ _

theorem isAbsolute_push {p : Path} {part : String} (hne : p.text ≠ "")
    (hpart : part.toList.head? ≠ some '/') : (p.push part).isAbsolute = p.isAbsolute := by
  have hne' : p.text.toList ≠ [] := by simpa using hne
  obtain ⟨c, cs, htext⟩ := List.exists_cons_of_ne_nil hne'
  rw [push, if_neg (by simpa using hpart), isAbsolute, isAbsolute]
  split_ifs <;> simp [htext]

theorem text_push_ne_empty {p : Path} {part : String} (hne : p.text ≠ "")
    (hpart : part.toList.head? ≠ some '/') : (p.push part).text ≠ "" := by
  rw [push, if_neg (by simpa using hpart)]
  split_ifs <;> simp [hne]

/-- A part that is appended adds its components to those of the path. -/
theorem components_push {p : Path} {part : String} (hne : p.text ≠ "")
    (hpart : part.toList.head? ≠ some '/') :
    (p.push part).components = p.components ++ (pieces part.toList).filterMap inner? := by
  obtain ⟨front, hfront, hp, hpush⟩ := pieces_push hne hpart
  obtain ⟨first, rest, rfl⟩ := List.exists_cons_of_ne_nil hfront
  have habs := isAbsolute_push hne hpart
  have hidle : [([] : List Char)].filterMap inner? = [] := rfl
  rcases hp with hp | hp
  · simp only [components, hp, hpush, habs, List.cons_append, List.filterMap_append,
      List.append_assoc]
  · simp only [components, hp, hpush, habs, List.cons_append, List.filterMap_append,
      List.append_assoc, hidle, List.append_nil]

/-! ### Cutting off a directory -/

theorem filterMap_dropIdle (l : List (List Char)) :
    (dropIdle l).filterMap inner? = l.filterMap inner? := by
  induction l with
  | nil => rfl
  | cons x l ih =>
    rw [dropIdle]
    split_ifs with h
    · rw [ih, List.filterMap_cons_none (Option.isNone_iff_eq_none.mp h)]
    · rfl

theorem dropIdle_suffix (l : List (List Char)) : dropIdle l <:+ l := by
  induction l with
  | nil => exact List.suffix_rfl
  | cons x l ih =>
    rw [dropIdle]
    split_ifs
    · exact ih.trans (List.suffix_cons x l)
    · exact List.suffix_rfl

theorem inner?_ne_none_of_dropIdle {l rest : List (List Char)} {x : List Char}
    (h : dropIdle l = x :: rest) : inner? x ≠ none := by
  induction l with
  | nil => nomatch h
  | cons y l ih =>
    rw [dropIdle] at h
    split_ifs at h with hy
    · exact ih h
    · obtain ⟨rfl, -⟩ := List.cons.inj h
      simpa using hy

theorem filterMap_of_dropComponents {cs : List Component} {l rest : List (List Char)}
    (h : dropComponents cs l = some rest) :
    l.filterMap inner? = cs ++ rest.filterMap inner? := by
  induction cs generalizing l with
  | nil =>
    obtain rfl := Option.some.inj h
    rfl
  | cons c cs ih =>
    rw [dropComponents] at h
    cases hl : dropIdle l with
    | nil =>
      rw [hl] at h
      nomatch h
    | cons x l' =>
      simp only [hl] at h
      split_ifs at h with hx
      rw [← filterMap_dropIdle, hl, List.filterMap_cons_some (eq_of_beq hx), ih h]
      rfl

theorem suffix_of_dropComponents {cs : List Component} {l rest : List (List Char)}
    (h : dropComponents cs l = some rest) : rest <:+ l := by
  induction cs generalizing l with
  | nil =>
    obtain rfl := Option.some.inj h
    exact List.suffix_rfl
  | cons c cs ih =>
    rw [dropComponents] at h
    cases hl : dropIdle l with
    | nil =>
      rw [hl] at h
      nomatch h
    | cons x l' =>
      simp only [hl] at h
      split_ifs at h
      have hsuffix := dropIdle_suffix l
      rw [hl] at hsuffix
      exact (ih h).trans ((List.suffix_cons x l').trans hsuffix)

theorem exists_dropComponents {cs : List Component} {l : List (List Char)}
    (h : cs <+: l.filterMap inner?) : ∃ rest, dropComponents cs l = some rest := by
  induction cs generalizing l with
  | nil => exact ⟨l, rfl⟩
  | cons c cs ih =>
    rw [← filterMap_dropIdle] at h
    rw [dropComponents]
    cases hl : dropIdle l with
    | nil =>
      rw [hl] at h
      exact absurd h (by simp)
    | cons x l' =>
      obtain ⟨c', hc'⟩ := Option.ne_none_iff_exists'.mp (inner?_ne_none_of_dropIdle hl)
      rw [hl, List.filterMap_cons_some hc', List.cons_prefix_cons] at h
      obtain ⟨rfl, htail⟩ := h
      simpa [hc'] using ih htail

/-- What is left has the components that its pieces stand for. -/
theorem components_remainder {l : List (List Char)} (hl : ∀ x ∈ l, '/' ∉ x) :
    (remainder l).components = l.filterMap inner? := by
  have htrim : (dropIdle (dropIdle l).reverse).reverse.filterMap inner? = l.filterMap inner? := by
    rw [List.filterMap_reverse, filterMap_dropIdle, List.filterMap_reverse, List.reverse_reverse,
      filterMap_dropIdle]
  have hfront : (dropIdle (dropIdle l).reverse).reverse <+: dropIdle l := by
    rw [← List.reverse_suffix, List.reverse_reverse]
    exact dropIdle_suffix _
  cases hpieces : (dropIdle (dropIdle l).reverse).reverse with
  | nil =>
    rw [← htrim, hpieces, remainder, hpieces]
    rfl
  | cons x rest =>
    rw [hpieces] at htrim hfront
    have hslash : ∀ y ∈ x :: rest, '/' ∉ y := fun y hy =>
      hl y ((dropIdle_suffix l).subset (hfront.subset hy))
    have hfirst : inner? x ≠ none := by
      obtain ⟨tail, htail⟩ := hfront
      exact inner?_ne_none_of_dropIdle htail.symm
    have htext : pieces (remainder l).text.toList = x :: rest := by
      rw [remainder, hpieces, String.toList_ofList]
      exact pieces_joinPieces (List.cons_ne_nil x rest) hslash
    rw [components_of_pieces htext hfirst, htrim]

/-- What is left after a directory has the components that follow those of the directory. -/
theorem components_of_under? {p dir r : Path} (h : p.under? dir = some r) :
    p.components = dir.components ++ r.components := by
  unfold under? at h
  split at h
  · next hdir =>
    obtain rfl := Option.some.inj h
    rw [hdir]
    rfl
  · next c cs first tail hdir hp =>
    split_ifs at h with hfirst
    obtain rfl := eq_of_beq hfirst
    obtain ⟨rest, hrest, rfl⟩ := Option.map_eq_some_iff.mp h
    obtain ⟨-, hnil⟩ | ⟨c', hc'⟩ := components_cases p
    · rw [hp] at hnil
      nomatch hnil
    · have hslash : ∀ x ∈ rest, '/' ∉ x := fun x hx =>
        slash_not_mem_of_mem_pieces
          (List.mem_of_mem_tail ((suffix_of_dropComponents hrest).subset hx))
      rw [components_remainder hslash, hdir, List.cons_append, ← filterMap_of_dropComponents hrest,
        hc']
      rw [hc'] at hp
      rw [(List.cons.inj hp).1]
  · nomatch h

/-- A directory can be cut off iff its components stand in front. -/
theorem isSome_under? {p dir : Path} : (p.under? dir).isSome ↔ dir.components <+: p.components := by
  constructor
  · intro h
    obtain ⟨r, hr⟩ := Option.isSome_iff_exists.mp h
    exact ⟨r.components, (components_of_under? hr).symm⟩
  · intro h
    unfold under?
    split
    · rfl
    · next c cs first tail hdir hp =>
      obtain ⟨-, hnil⟩ | ⟨c', hc'⟩ := components_cases p
      · rw [hp] at hnil
        nomatch hnil
      rw [hc'] at hp
      obtain ⟨rfl, -⟩ := List.cons.inj hp
      rw [hdir, hc', List.cons_prefix_cons] at h
      obtain ⟨rfl, htail⟩ := h
      obtain ⟨rest, hrest⟩ := exists_dropComponents htail
      simp [hrest]
    · next hdir hp =>
      rw [hdir, hp] at h
      exact absurd h (by simp)

/-- **A path is seen from a directory by its components alone.** -/
theorem linkText_relativeTo_congr {p q : Path} (h : p.components = q.components) (dir : Path) :
    (p.relativeTo dir).linkText = (q.relativeTo dir).linkText := by
  have hsome : (p.under? dir).isSome ↔ (q.under? dir).isSome := by
    rw [isSome_under?, isSome_under?, h]
  unfold relativeTo
  cases hp : p.under? dir with
  | none =>
    have hq : q.under? dir = none := by simpa [hp] using hsome
    simp only [hq, h]
  | some r =>
    obtain ⟨s, hs⟩ := Option.isSome_iff_exists.mp (hsome.mp (by rw [hp]; rfl))
    have hcomponents : r.components = s.components := by
      have hboth := (components_of_under? hp).symm.trans (h.trans (components_of_under? hs))
      exact List.append_cancel_left hboth
    simp only [hs, linkText, hcomponents]

theorem extension?_congr {p q : Path} (h : p.components = q.components) :
    p.extension? = q.extension? := by
  unfold extension? fileName?
  rw [h]

/-! ### The characters of a link -/

theorem mem_of_mem_pieces {cs x : List Char} (h : x ∈ pieces cs) {c : Char} (hc : c ∈ x) :
    c ∈ cs := by
  induction cs generalizing x with
  | nil =>
    obtain rfl := List.mem_singleton.mp h
    exact hc
  | cons d cs ih =>
    by_cases hd : d = '/'
    · subst hd
      rw [pieces_slash_cons] at h
      rcases List.mem_cons.mp h with rfl | h
      · exact absurd hc List.not_mem_nil
      · exact List.mem_cons_of_mem _ (ih h hc)
    · rw [pieces_cons_of_ne cs hd] at h
      cases hp : pieces cs with
      | nil => exact absurd hp (pieces_ne_nil cs)
      | cons first rest =>
        rw [hp] at h ih
        rcases List.mem_cons.mp h with rfl | h
        · rcases List.mem_cons.mp hc with rfl | hc
          · exact List.mem_cons_self
          · exact List.mem_cons_of_mem _ (ih List.mem_cons_self hc)
        · exact List.mem_cons_of_mem _ (ih (List.mem_cons_of_mem first h) hc)

/-- A component is the start of a path or stands for one of its pieces. -/
theorem cases_of_mem_components {p : Path} {c : Component} (h : c ∈ p.components) :
    c = .root ∨ c = .current ∨ ∃ x ∈ pieces p.text.toList, inner? x = some c := by
  rw [components] at h
  cases hp : pieces p.text.toList with
  | nil => exact absurd hp (pieces_ne_nil _)
  | cons first rest =>
    simp only [hp, List.mem_append, List.mem_filterMap] at h
    rcases h with h | ⟨x, hx, hc⟩
    · split_ifs at h
      · exact .inl (List.mem_singleton.mp h)
      · exact .inr (.inl (List.mem_singleton.mp h))
      · exact .inr (.inr ⟨first, List.mem_cons_self, Option.mem_toList.mp h⟩)
    · exact .inr (.inr ⟨x, List.mem_cons_of_mem first hx, hc⟩)

theorem toList_text_of_inner? {x : List Char} {c : Component} (h : inner? x = some c) :
    c.text.toList = ['.', '.'] ∨ c.text.toList = x := by
  unfold inner? at h
  split_ifs at h
  · exact .inl (by rw [← Option.some.inj h]; rfl)
  · exact .inr (by rw [← Option.some.inj h]; exact String.toList_ofList)

section Characters

variable {P : Char → Prop} (hslash : P '/') (hdot : P '.')

include hslash

theorem forall_mem_intercalate {l : List (List Char)} (hl : ∀ x ∈ l, ∀ c ∈ x, P c) :
    ∀ c ∈ ['/'].intercalate l, P c := by
  induction l with
  | nil => exact List.forall_mem_nil P
  | cons x l ih =>
    rw [List.forall_mem_cons] at hl
    cases l with
    | nil =>
      rw [List.intercalate_singleton]
      exact hl.1
    | cons y l =>
      rw [List.intercalate_cons_cons, List.forall_mem_append, List.forall_mem_append,
        List.forall_mem_singleton]
      exact ⟨⟨hl.1, hslash⟩, ih hl.2⟩

theorem forall_mem_push {p : Path} {part : String} (hp : ∀ c ∈ p.text.toList, P c)
    (hpart : ∀ c ∈ part.toList, P c) : ∀ c ∈ (p.push part).text.toList, P c := by
  rw [push]
  split_ifs
  · exact hpart
  · rw [String.toList_append, List.forall_mem_append]
    exact ⟨hp, hpart⟩
  · rw [String.toList_append, String.toList_append, List.forall_mem_append, List.forall_mem_append]
    exact ⟨⟨hp, List.forall_mem_singleton.mpr hslash⟩, hpart⟩

theorem forall_mem_foldl_push {parts : List String} {p : Path} (hp : ∀ c ∈ p.text.toList, P c)
    (hparts : ∀ part ∈ parts, ∀ c ∈ part.toList, P c) :
    ∀ c ∈ (parts.foldl push p).text.toList, P c := by
  induction parts generalizing p with
  | nil => exact hp
  | cons part parts ih =>
    rw [List.forall_mem_cons] at hparts
    exact ih (forall_mem_push hslash hp hparts.1) hparts.2

theorem forall_mem_linkText {p : Path}
    (hp : ∀ part ∈ p.components.map Component.text, ∀ c ∈ part.toList, P c) :
    ∀ c ∈ p.linkText.toList, P c := by
  rw [linkText, String.toList_intercalate]
  exact forall_mem_intercalate hslash (List.forall_mem_map.mpr hp)

include hdot

theorem forall_mem_component {p : Path} (hp : ∀ c ∈ p.text.toList, P c) :
    ∀ part ∈ p.components.map Component.text, ∀ c ∈ part.toList, P c := by
  intro part hpart c hc
  obtain ⟨component, hcomponent, rfl⟩ := List.mem_map.mp hpart
  rcases cases_of_mem_components hcomponent with rfl | rfl | ⟨x, hx, hinner⟩
  · obtain rfl := List.mem_singleton.mp hc
    exact hslash
  · obtain rfl := List.mem_singleton.mp hc
    exact hdot
  · rcases toList_text_of_inner? hinner with htext | htext
    · rw [htext, List.mem_cons, List.mem_singleton, or_self] at hc
      exact hc ▸ hdot
    · rw [htext] at hc
      exact hp c (mem_of_mem_pieces hx hc)

/-- **The characters of a link** are those of the path, apart from slashes and dots. -/
theorem forall_mem_linkText_relativeTo {p : Path} (hp : ∀ c ∈ p.text.toList, P c) (dir : Path) :
    ∀ c ∈ (p.relativeTo dir).linkText.toList, P c := by
  have hparts := forall_mem_component hslash hdot hp
  apply forall_mem_linkText hslash
  unfold relativeTo
  cases hunder : p.under? dir with
  | some rest =>
    -- What is left after the directory has only components that the path has.
    rw [components_of_under? hunder, List.map_append, List.forall_mem_append] at hparts
    exact hparts.2
  | none =>
    apply forall_mem_component hslash hdot
    refine forall_mem_foldl_push hslash (List.forall_mem_nil P) ?_
    rw [List.forall_mem_append]
    refine ⟨fun part hpart c hc => ?_, fun part hpart => hparts part ?_⟩
    · rw [List.eq_of_mem_replicate hpart] at hc
      have hc' : c ∈ ['.', '.'] := hc
      rw [List.mem_cons, List.mem_singleton, or_self] at hc'
      exact hc' ▸ hdot
    · exact List.map_subset _ (List.drop_subset _ _) hpart

end Characters

end CodeNotes.Path
