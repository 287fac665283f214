import CodeNotes.Proofs.Disk.Placed
import CodeNotes.Proofs.Pattern.Escape

/-!
# Searching along a directory

A pattern behind a directory starts with the parts of the directory.  On a plain disk the search
follows them to the place of the directory, whatever characters its names are made of, and goes on
from there with the parts of the pattern (`run_rooted`).
-/

namespace CodeNotes.Pattern

open Disk Node

/-! ### The pieces of a directory -/

theorem names_rdropWhile (cs : List Char) : names (cs.rdropWhile (· == '/')) = names cs := by
  induction cs using List.reverseRecOn with
  | nil => rfl
  | append_singleton cs c ih =>
    by_cases hc : c = '/'
    · subst hc
      rw [List.rdropWhile_concat_pos _ _ _ (by decide), ih]
      have hpieces : Path.pieces (cs ++ ['/']) = Path.pieces cs ++ [[]] := Path.pieces_append cs []
      simp [Disk.names, hpieces]
    · rw [List.rdropWhile_concat_neg _ _ _ (by simpa using hc)]

/-- The pieces of a directory that are not empty are its names. -/
theorem names_dirPieces {dir : Path} (habs : dir.isAbsolute = true) (hnames : placeOf dir ≠ []) :
    ((dirPieces dir).filter (!·.isEmpty)).map String.ofList = placeOf dir := by
  have htext := names_rdropWhile dir.text.toList
  rw [rdropWhile_dir habs hnames, Disk.names, Path.pieces_slash_cons] at htext
  exact htext

theorem getLast?_pieces {cs : List Char} (h : cs.getLast? ≠ some '/') (hne : cs ≠ []) :
    (Path.pieces cs).getLast? ≠ some [] := by
  induction cs with
  | nil => exact absurd rfl hne
  | cons c cs ih =>
    obtain ⟨first, rest, hp⟩ := List.exists_cons_of_ne_nil (Path.pieces_ne_nil cs)
    by_cases hc : c = '/'
    · subst hc
      have hcs : cs ≠ [] := by
        rintro rfl
        exact h rfl
      rw [List.getLast?_cons_of_ne_nil hcs] at h
      rw [Path.pieces_slash_cons, List.getLast?_cons_of_ne_nil (Path.pieces_ne_nil cs)]
      exact ih h hcs
    · rw [Path.pieces_cons_of_ne cs hc, hp, List.modifyHead_cons]
      cases rest with
      | nil => simp
      | cons x rest =>
        have hcs : cs ≠ [] := by
          rintro rfl
          simp [Path.pieces] at hp
        rw [List.getLast?_cons_of_ne_nil hcs] at h
        have hlast := ih h hcs
        rw [hp] at hlast
        simpa using hlast

theorem getLast?_dirPieces {dir : Path} (habs : dir.isAbsolute = true) (hnames : placeOf dir ≠ []) :
    (dirPieces dir).getLast? ≠ some [] := by
  have htext := rdropWhile_dir habs hnames
  have hne : dir.text.toList.rdropWhile (· == '/') ≠ [] := by
    rw [htext]
    exact List.cons_ne_nil _ _
  have hlast : (dir.text.toList.rdropWhile (· == '/')).getLast? ≠ some '/' := by
    have hnot := List.rdropWhile_last_not _ _ hne
    rw [List.getLast?_eq_some_getLast hne]
    simpa using hnot
  rw [htext] at hlast
  have hrest : (dir.text.toList.rdropWhile (· == '/')).drop 1 ≠ [] := by
    intro hnil
    rw [hnil] at hlast
    exact hlast rfl
  rw [List.getLast?_cons_of_ne_nil hrest] at hlast
  exact getLast?_pieces hlast hrest

/-! ### Spellings of a place -/

/-- A path along names, with or without a separator at its end. -/
def Spells (q : Path) (m : Location) : Prop :=
  q = pathTo m ∨ q = (pathTo m).push ""

theorem push_push {p : Path} {s : String} (hp : p.text ≠ "") (hs : s.toList.head? ≠ some '/') :
    (p.push "").push s = p.push s := by
  have hempty : "".toList.head? ≠ some '/' := by decide
  have hpush := text_push hempty hp
  have hne : (p.push "").text ≠ "" := by
    rw [hpush]
    split_ifs <;> simp [hp]
  rw [Path.mk.injEq, text_push hs hne, text_push hs hp, hpush]
  by_cases hlast : p.text.toList.getLast? = some '/'
  · simp [hlast]
  · simp [hlast, String.append_assoc]

namespace Spells

variable {q : Path} {m : Location} {s : String} (h : Spells q m) (hm : Named m)
include h hm

theorem push_name (hs : IsName s) : q.push s = pathTo (m ++ [s]) := by
  rw [pathTo_concat]
  rcases h with rfl | rfl
  · rfl
  · exact push_push (pathTo_ne_empty hm) hs.head?

theorem push_empty : Spells (q.push "") m := by
  rcases h with rfl | rfl
  · exact .inr rfl
  · rw [push_push (pathTo_ne_empty hm) (by decide)]
    exact .inr rfl

theorem ne_empty : q.text ≠ "" := by
  have hne := pathTo_ne_empty hm
  rcases h with rfl | rfl
  · exact hne
  · rw [text_push (by decide) hne]
    split_ifs <;> simp [hne]

theorem isAbsolute : q.isAbsolute = true := by
  rcases h with rfl | rfl
  · exact isAbsolute_pathTo hm
  · rw [Path.isAbsolute_push (pathTo_ne_empty hm) (by decide), isAbsolute_pathTo hm]

theorem step_eq (part : String) : step q part = q.push part :=
  step_of_isAbsolute (h.isAbsolute hm) part

theorem names_eq : Disk.names q.text.toList = m := by
  rcases h with rfl | rfl
  · exact names_pathTo hm
  · rw [names_push (pathTo_ne_empty hm) (by decide), names_pathTo hm]
    exact List.append_nil m

theorem size_le : q.text.utf8ByteSize ≤ weight m + 1 := by
  have hslash : "/".utf8ByteSize = 1 := rfl
  have hempty : "".utf8ByteSize = 0 := rfl
  rcases eq_or_ne m [] with rfl | hne
  · have hroot : (pathTo []).push "" = pathTo [] := by decide +kernel
    have hq : q = pathTo [] := by
      rcases h with rfl | rfl
      · rfl
      · exact hroot
    rw [hq]
    exact Nat.le_refl 1
  · obtain ⟨-, hsize⟩ := pathTo_text hm hne
    rcases h with rfl | rfl
    · omega
    · rw [text_push (by decide) (pathTo_ne_empty hm), if_neg (getLast?_pathTo hm hne),
        String.utf8ByteSize_append, String.utf8ByteSize_append]
      omega

/-- A spelling of a place leads where its names lead, if that is a directory. -/
theorem locate {d : Disk} {k : Nat} {l : Location} (hleads : Leads d.root linkLimit [] m k l)
    (hdir : d.root.kindAt l = some (.directory false)) (hsize : weight m + 1 < pathLimit) :
    d.locate q = .ok l := by
  have hlt : q.text.utf8ByteSize < pathLimit := Nat.lt_of_le_of_lt (h.size_le hm) hsize
  rw [← h.names_eq hm] at hleads
  rw [locate_eq_ok_iff, arrive_eq_walk (h.ne_empty hm) hlt, start, if_pos (h.isAbsolute hm)]
  exact walk_of_leads (leads_steps hleads hdir)

end Spells

/-! ### Parts of a directory -/

theorem isRecursive_escapedPart (x : List Char) : (escapedPart x).isRecursive = false := by
  rw [Bool.eq_false_iff]
  intro hrecursive
  have hmem : Token.anyPath ∈ x.map tokenOf := by
    simpa [Part.isRecursive, escapedPart] using hrecursive
  obtain ⟨c, -, hc⟩ := List.mem_map.mp hmem
  rw [tokenOf] at hc
  split_ifs at hc

theorem matchesName_escapedPart (x : List Char) (name : String) :
    (escapedPart x).matchesName name = decide (x = name.toList) :=
  matchesName_tokenOf x name.toList

theorem text_escapedPart {x : List Char} (h : (escapedPart x).isLiteral = true) :
    (escapedPart x).text = String.ofList x := by
  have hplain : ∀ c ∈ x, isSpecial c = false := by
    intro c hc
    have hall := List.all_eq_true.mp h (tokenOf c) (List.mem_map_of_mem hc)
    rw [Bool.eq_false_iff]
    intro hspecial
    rw [tokenOf, if_pos hspecial] at hall
    cases hall
  have hescaped : escaped x = x := by
    clear h
    induction x with
    | nil => rfl
    | cons c x ih =>
      rw [List.forall_mem_cons] at hplain
      rw [escaped_cons, hplain.1, ih hplain.2]
      rfl
  rw [escapedPart, hescaped]

theorem specials_escapedPart {x : List Char} (hdot : x ≠ ['.']) (hup : x ≠ ['.', '.']) :
    specials (escapedPart x) = [] := by
  have hmatches : [".", ".."].filter (escapedPart x).matchesName = [] := by
    simp [matchesName_escapedPart, hdot, hup]
  rw [specials, hmatches]
  split_ifs <;> rfl

theorem concat_of_empty {names : List String} {f : String → Yield}
    (h : ∀ name ∈ names, f name = {}) : Yield.concat (names.map f) = {} := by
  induction names with
  | nil => rfl
  | cons name names ih =>
    rw [List.forall_mem_cons] at h
    rw [List.map_cons, Yield.concat_cons, h.1, Yield.empty_append, ih h.2]

theorem concat_of_nodup {names : List String} (hnodup : names.Nodup) {s : String} (hs : s ∈ names)
    {f : String → Yield} (hf : ∀ name ∈ names, name ≠ s → f name = {}) :
    Yield.concat (names.map f) = f s := by
  induction names with
  | nil => nomatch hs
  | cons name names ih =>
    obtain ⟨hname, hnodup⟩ := List.nodup_cons.mp hnodup
    rw [List.forall_mem_cons] at hf
    rw [List.map_cons, Yield.concat_cons]
    by_cases heq : name = s
    · subst heq
      rw [concat_of_empty fun x hx => hf.2 x hx fun h => hname (h ▸ hx), Yield.append_empty]
    · have hmem : s ∈ names := (List.mem_cons.mp hs).resolve_left fun h => heq h.symm
      rw [hf.1 heq, Yield.empty_append, ih hnodup hmem hf.2]

section Along

variable {d : Disk} {only : Bool} {q : Path} {m : Location} {s : String} {parts : List Part}
  {k k' : Nat} {l l' : Location}

theorem onward_cons {fuel : Nat} (part : Part) :
    onward d only fuel (part :: parts) q = inside d only fuel (part :: parts) q :=
  rfl

/-- A name of the directory is followed, with wildcards in it or not. -/
theorem onward_name (only : Bool) (parts : List Part) (g : Nat) (hsound : d.root.Sound)
    (hq : Spells q m) (hm : Named (m ++ [s])) (hleads : Leads d.root linkLimit [] m k l)
    (hs : Leads d.root k l [s] k' l') (hdir : d.root.kindAt l' = some (.directory false))
    (hsize : weight (m ++ [s]) + 1 < pathLimit) :
    ∃ f, g ≤ f ∧ onward d only (g + 2) (escapedPart s.toList :: parts) q =
      onward d only f parts (pathTo (m ++ [s])) := by
  have hname : IsName s := hm s (by simp)
  have hm' : Named m := fun x hx => hm x (by simp [hx])
  have hmsize : weight m + 1 < pathLimit := by
    rw [weight_concat] at hsize
    omega
  have hlocate : d.locate q = .ok l := hq.locate hm' hleads (hs.directory hdir) hmsize
  have hpush := hq.push_name hm' hname
  rw [onward_cons]
  cases hliteral : (escapedPart s.toList).isLiteral with
  | true =>
    have htext := text_escapedPart hliteral
    rw [String.ofList_toList] at htext
    have hlocate' : d.locate (pathTo (m ++ [s])) = .ok l' :=
      Spells.locate (.inl rfl) hm (hleads.trans hs) hdir hsize
    have hadmits : admits d (escapedPart s.toList) q = true := by
      rw [admits, htext, if_neg (by simp [hname.ne_dot, hname.ne_up]), hq.step_eq hm', hpush]
      simp [presentOrLink, locate_eq_ok_iff.mp hlocate', Except.toOption]
    refine ⟨g + 1, Nat.le_succ g, ?_⟩
    rw [inside_of_literal hliteral, if_pos hadmits, htext, hq.step_eq hm', hpush]
  | false =>
    obtain ⟨hlooksUp, hat⟩ := hs.looksUp hname.ne_dot hname.ne_up
    obtain ⟨names, hnames, hmem⟩ := at?_concat_ne_none_iff.mp hat
    obtain ⟨hnodup, hisName⟩ := hsound.of_namesAt hnames
    have hlist := list_eq hlocate hlooksUp.directory hnames
    have hisDir : showsDirectory d q = true :=
      showsDirectory_of_isDirectory
        (isDirectory_iff.mpr ⟨l, hlocate, false, hlooksUp.directory⟩)
    have hspecials : specials (escapedPart s.toList) = [] := by
      refine specials_escapedPart ?_ ?_ <;> intro heq
      · exact hname.ne_dot (String.toList_inj.mp heq)
      · exact hname.ne_up (String.toList_inj.mp heq)
    refine ⟨g, Nat.le_refl g, ?_⟩
    rw [inside_of_wildcard hliteral, if_pos hisDir, hlist]
    simp only [Bool.false_eq_true, if_false, hspecials, List.reverse_nil, List.map_nil,
      Yield.concat_nil, Yield.empty_append]
    -- Of all the names in the directory only this one matches.
    have hentry : ∀ name ∈ names.mergeSort nameLE,
        entry d only (g + 1) (escapedPart s.toList :: parts) (step q name) =
          if name = s then onward d only g parts (pathTo (m ++ [s])) else {} := by
      intro name hmem
      have hentryName : IsName name := hisName name (List.mem_mergeSort.mp hmem)
      rw [entry_of_name (isRecursive_escapedPart _), named, hq.step_eq hm',
        fileName?_push (hq.ne_empty hm') hentryName]
      simp only [matchesName_escapedPart, decide_eq_true_eq, String.toList_inj]
      by_cases heq : name = s
      · rw [if_pos heq, if_pos heq.symm, heq, hpush]
      · rw [if_neg heq, if_neg (Ne.symm heq)]
    rw [List.map_congr_left hentry, concat_of_nodup ?_ (List.mem_mergeSort.mpr hmem)]
    · rw [if_pos rfl]
    · intro name _ hne
      rw [if_neg hne]
    · exact (List.mergeSort_perm _ _).nodup_iff.mpr hnodup

theorem onward_empty {g : Nat} (hq : Spells q m) (hm : Named m)
    (hleads : Leads d.root linkLimit [] m k l) (hdir : d.root.kindAt l = some (.directory false))
    (hsize : weight m + 1 < pathLimit) :
    onward d only (g + 1) (escapedPart [] :: parts) q = onward d only g parts (q.push "") := by
  have hlocate := (hq.push_empty hm).locate hm hleads hdir hsize
  have hadmits : admits d (escapedPart []) q = true := by
    rw [admits, if_neg (by decide), show (escapedPart []).text = "" from rfl, hq.step_eq hm]
    simp [presentOrLink, locate_eq_ok_iff.mp hlocate, Except.toOption]
  rw [onward_cons, inside_of_literal rfl, if_pos hadmits, hq.step_eq hm]
  rfl

/-- The search goes along the pieces of a directory, and each costs one turn and one more if it is
looked up among the names of its parent. -/
theorem onward_along (only : Bool) (parts : List Part) {place : Location} (hsound : d.root.Sound)
    (hplace : Named place) (hsize : weight place + 1 < pathLimit) {D : List (List Char)} {f : Nat}
    (hq : Spells q m) (hm : place = m ++ (D.filter (!·.isEmpty)).map String.ofList)
    (hleads : Leads d.root linkLimit [] m k l)
    (hrest : Leads d.root k l ((D.filter (!·.isEmpty)).map String.ofList) k' l')
    (hdir : d.root.kindAt l' = some (.directory false)) (hstop : D = [] → q = pathTo m)
    (hlast : D.getLast? ≠ some []) (hfuel : D.length + (D.filter (!·.isEmpty)).length ≤ f) :
    ∃ f', f ≤ f' + D.length + (D.filter (!·.isEmpty)).length ∧
      onward d only f (D.map escapedPart ++ parts) q = onward d only f' parts (pathTo place) := by
  -- The names in `m` are done and lead to `l`; those of the pieces in `D` are still to come.
  induction D generalizing q m f k l with
  | nil =>
    refine ⟨f, Nat.le_refl f, ?_⟩
    rw [hstop rfl, hm]
    simp
  | cons x D ih =>
    have hmnamed : Named m := fun y hy => hplace y (by simp [hm, hy])
    have hmsize : weight m + 1 < pathLimit := by
      rw [hm, weight_append] at hsize
      omega
    by_cases hx : x = []
    · subst hx
      have hD : D ≠ [] := by
        rintro rfl
        exact hlast rfl
      obtain ⟨g, rfl⟩ : ∃ g, f = g + 1 := ⟨f - 1, by simp at hfuel; omega⟩
      rw [List.getLast?_cons_of_ne_nil hD] at hlast
      simp only [List.length_cons] at hfuel
      have hfilter : ([] :: D).filter (!·.isEmpty) = D.filter (!·.isEmpty) := rfl
      rw [hfilter] at hm hfuel hrest ⊢
      obtain ⟨f', hf', honward⟩ := ih (hq.push_empty hmnamed) hm hleads hrest
        (fun h => absurd h hD) hlast (by omega : _ ≤ g)
      refine ⟨f', by simp only [List.length_cons]; omega, ?_⟩
      rw [List.map_cons, List.cons_append,
        onward_empty hq hmnamed hleads (hrest.directory hdir) hmsize, honward]
    · have hfilter : (x :: D).filter (!·.isEmpty) = x :: D.filter (!·.isEmpty) :=
        List.filter_cons_of_pos (by simp [hx])
      rw [hfilter] at hm hfuel hrest ⊢
      rw [List.map_cons, ← List.singleton_append] at hm hrest
      rw [← List.append_assoc] at hm
      obtain ⟨k₁, l₁, hs, hrest⟩ := leads_append hrest
      simp only [List.length_cons] at hfuel ⊢
      obtain ⟨g, rfl⟩ : ∃ g, f = g + 2 := ⟨f - 2, by omega⟩
      have hsnamed : Named (m ++ [String.ofList x]) :=
        fun y hy => hplace y (hm ▸ List.mem_append_left _ hy)
      have hssize : weight (m ++ [String.ofList x]) + 1 < pathLimit := by
        rw [hm, weight_append] at hsize
        omega
      obtain ⟨g', hg', hname⟩ := onward_name only (D.map escapedPart ++ parts) g hsound hq hsnamed
        hleads hs (hrest.directory hdir) hssize
      rw [String.toList_ofList] at hname
      have hlast' : D.getLast? ≠ some [] := by
        rcases eq_or_ne D [] with rfl | hD
        · simp
        · rwa [List.getLast?_cons_of_ne_nil hD] at hlast
      obtain ⟨f', hf', honward⟩ := ih (.inl rfl) hm (hleads.trans hs) hrest (fun _ => rfl) hlast'
        (by omega : _ ≤ g')
      refine ⟨f', by omega, ?_⟩
      rw [List.map_cons, List.cons_append, hname, honward]

end Along

theorem run_eq (q : Query) (d : Disk) :
    q.run d = inside d q.directoriesOnly (q.parts.length + 2 * pathLimit) q.parts q.start :=
  rfl

/-- **A pattern behind a directory is searched for below the place of the directory.** -/
theorem run_rooted {d : Disk} {dir : Path} {tree : Node} (h : Placed d dir tree)
    (hsize : weight (placeOf dir) + 1 < pathLimit) (parts : List Part) (only : Bool) :
    ∃ fuel, parts.length + 2 * pathLimit ≤ fuel + (placeOf dir).length ∧
      Query.run ⟨⟨"/"⟩, (dirPieces dir).map escapedPart ++ parts, only⟩ d =
        onward d only fuel parts (pathTo (placeOf dir)) := by
  have hnames := names_dirPieces h.absolute h.not_root
  have hlength : ((dirPieces dir).filter (!·.isEmpty)).length = (placeOf dir).length := by
    rw [← hnames, List.length_map]
  have hdir := h.directory_below ((hasDirectory_nil tree).mpr h.directory)
  rw [List.append_nil] at hdir
  obtain ⟨k, hleads⟩ := h.leads_base
  rw [← hnames] at hleads
  have hne : dirPieces dir ≠ [] := Path.pieces_ne_nil _
  have hbound := two_mul_length_le_weight h.named
  obtain ⟨fuel, hfuel, hrun⟩ := onward_along only parts h.sound h.named hsize
    (q := ⟨"/"⟩) (m := []) (f := ((dirPieces dir).map escapedPart ++ parts).length + 2 * pathLimit)
    (.inl rfl) (by rw [hnames]; rfl) .nil hleads hdir (fun hnil => absurd hnil hne)
    (getLast?_dirPieces h.absolute h.not_root) (by
      rw [hlength, List.length_append, List.length_map]
      omega)
  rw [hlength] at hfuel
  refine ⟨fuel, ?_, ?_⟩
  · rw [List.length_append, List.length_map] at hfuel
    omega
  · rw [← hrun, run_eq]
    dsimp only
    obtain ⟨x, D, hD⟩ := List.exists_cons_of_ne_nil hne
    rw [hD, List.map_cons, List.cons_append, onward_cons]

end CodeNotes.Pattern
