import CodeNotes.Proofs.Disk.Change
import Mathlib.Data.List.Induction

/-!
# Trees in their place

A tree that lies somewhere on a disk is seen through paths that start with the path of its place
(`pathTo`).  In a plain tree, which has no links and nothing locked, the rest of such a path leads
where its names say (`Placed.locate_below`), so what the disk tells about the path is what the tree
tells about its rest.  There may be links on the way to the place, and anything beside it.
-/

namespace CodeNotes

namespace Node

/-- A text that can be the name of an entry. -/
structure IsName (s : String) : Prop where
  ne_empty : s ≠ ""
  ne_dot : s ≠ "."
  ne_up : s ≠ ".."
  no_slash : '/' ∉ s.toList
  size_le : s.utf8ByteSize ≤ Disk.nameLimit

theorem isName_iff (s : String) :
    (s != "" && s != "." && s != ".." && !s.toList.contains '/' &&
      decide (s.utf8ByteSize ≤ Disk.nameLimit)) = true ↔ IsName s := by
  simp only [Bool.and_eq_true, bne_iff_ne, Bool.not_eq_true', List.contains_eq_mem,
    decide_eq_false_iff_not, decide_eq_true_eq]
  constructor
  · rintro ⟨⟨⟨⟨hempty, hdot⟩, hup⟩, hslash⟩, hsize⟩
    exact ⟨hempty, hdot, hup, hslash, hsize⟩
  · rintro ⟨hempty, hdot, hup, hslash, hsize⟩
    exact ⟨⟨⟨⟨hempty, hdot⟩, hup⟩, hslash⟩, hsize⟩

instance (s : String) : Decidable (IsName s) :=
  decidable_of_iff _ (isName_iff s)

/-- The entries of a directory have names of their own, all the way down. -/
inductive Sound : Node → Prop
  | file {content : ByteArray} {locked : Bool} : Sound (.file content locked)
  | link {target : String} : Sound (.link target)
  | directory {entries : List (String × Node)} {locked : Bool}
      (hnodup : (entries.map Prod.fst).Nodup) (hnames : ∀ e ∈ entries, IsName e.1)
      (hentries : ∀ e ∈ entries, Sound e.2) : Sound (.directory entries locked)

/-- There are no links, and everything is open. -/
inductive Plain : Node → Prop
  | file {content : ByteArray} : Plain (.file content false)
  | directory {entries : List (String × Node)} (hentries : ∀ e ∈ entries, Plain e.2) :
      Plain (.directory entries false)

variable {n c : Node} {l m : Location} {s : String}

theorem IsName.head? (h : IsName s) : s.toList.head? ≠ some '/' :=
  fun hhead => h.no_slash (List.mem_of_head? hhead)

theorem kindAt_append (h : n.at? l = some c) (m : Location) : n.kindAt (l ++ m) = c.kindAt m := by
  rw [kindAt, at?_append, h]
  rfl

theorem namesAt_append (h : n.at? l = some c) (m : Location) :
    n.namesAt (l ++ m) = c.namesAt m := by
  rw [namesAt, at?_append, h]
  rfl

theorem exists_mem_of_child? {entries : List (String × Node)} {locked : Bool}
    (h : (Node.directory entries locked).child? s = some c) : ∃ e ∈ entries, e.2 = c := by
  obtain ⟨e, he, hc⟩ := Option.map_eq_some_iff.mp h
  exact ⟨e, List.mem_of_find?_eq_some he, hc⟩

theorem Sound.of_at? (hsound : n.Sound) (h : n.at? l = some c) : c.Sound := by
  induction l generalizing n with
  | nil => exact Option.some.inj h ▸ hsound
  | cons s l ih =>
    obtain ⟨child, hchild, hrest⟩ := Option.bind_eq_some_iff.mp h
    cases hsound with
    | file => nomatch hchild
    | link => nomatch hchild
    | directory _ _ hentries =>
      obtain ⟨e, he, rfl⟩ := exists_mem_of_child? hchild
      exact ih (hentries e he) hrest

theorem Plain.of_at? (hplain : n.Plain) (h : n.at? l = some c) : c.Plain := by
  induction l generalizing n with
  | nil => exact Option.some.inj h ▸ hplain
  | cons s l ih =>
    obtain ⟨child, hchild, hrest⟩ := Option.bind_eq_some_iff.mp h
    cases hplain with
    | file => nomatch hchild
    | directory hentries =>
      obtain ⟨e, he, rfl⟩ := exists_mem_of_child? hchild
      exact ih (hentries e he) hrest

theorem Sound.of_namesAt (hsound : n.Sound) {names : List String} (h : n.namesAt l = some names) :
    names.Nodup ∧ ∀ s ∈ names, IsName s := by
  obtain ⟨c, hc, rfl⟩ := Option.map_eq_some_iff.mp h
  cases hsound.of_at? hc with
  | file => exact ⟨List.nodup_nil, fun _ hs => nomatch hs⟩
  | link => exact ⟨List.nodup_nil, fun _ hs => nomatch hs⟩
  | directory hnodup hnames _ =>
    refine ⟨hnodup, fun s hs => ?_⟩
    obtain ⟨e, he, rfl⟩ := List.mem_map.mp hs
    exact hnames e he

theorem Plain.open_kind (hplain : n.Plain) {kind : Kind} (h : n.kindAt l = some kind) :
    kind = .directory false ∨ ∃ content, kind = .file content false := by
  obtain ⟨c, hc, rfl⟩ := Option.map_eq_some_iff.mp h
  cases hplain.of_at? hc with
  | file => exact .inr ⟨_, rfl⟩
  | directory => exact .inl rfl

theorem mem_names_iff : s ∈ n.names ↔ ∃ c, n.child? s = some c := by
  cases n with
  | file content locked => simp [names, child?]
  | link target => simp [names, child?]
  | directory entries locked =>
    rw [← Option.isSome_iff_exists, ← any_eq_isSome_child?, names, List.any_eq_true, List.mem_map]
    simp

theorem at?_concat_ne_none_iff :
    n.at? (l ++ [s]) ≠ none ↔ ∃ names, n.namesAt l = some names ∧ s ∈ names := by
  rw [at?_concat, namesAt]
  cases n.at? l with
  | none => simp
  | some c => simp [mem_names_iff, ← Option.isSome_iff_exists, Option.isSome_iff_ne_none]

theorem Sound.isName_of_at? (hsound : n.Sound) (h : n.at? (l ++ [s]) ≠ none) : IsName s := by
  obtain ⟨names, hnames, hs⟩ := at?_concat_ne_none_iff.mp h
  exact (hsound.of_namesAt hnames).2 s hs

theorem Plain.kindAt_directory (hplain : n.Plain) (h : n.HasDirectory l) :
    n.kindAt l = some (.directory false) := by
  obtain ⟨locked, hdir⟩ := h
  rcases hplain.open_kind hdir with heq | ⟨content, heq⟩
  · rw [hdir, heq]
  · nomatch heq

theorem Plain.not_link (hplain : n.Plain) {kind : Kind} (h : n.kindAt l = some kind)
    (target : String) : kind ≠ .link target := by
  rintro rfl
  rcases hplain.open_kind h with heq | ⟨content, heq⟩ <;> nomatch heq

theorem at?_ne_none_of_append (h : n.at? (l ++ m) ≠ none) : n.at? l ≠ none := by
  intro hnone
  rw [at?_append, hnone] at h
  exact h rfl

end Node

namespace Disk

open Node

/-! ### Leading to a location -/

variable {root : Node} {k k₁ k₂ : Nat} {l m l₁ l₂ : Location} {xs ys : List String} {s : String}

theorem Leads.trans (h : Leads root k l xs k₁ l₁) (h' : Leads root k₁ l₁ ys k₂ l₂) :
    Leads root k l (xs ++ ys) k₂ l₂ := by
  induction h with
  | nil => exact h'
  | dot hdir _ ih => exact .dot hdir (ih h')
  | up hdir _ ih => exact .up hdir (ih h')
  | enter hname hkind hlink _ ih => exact .enter hname hkind hlink (ih h')
  | follow hname hlink htarget _ _ ih => exact .follow hname hlink htarget (ih h')

/-- Steps that lead to a directory start at one. -/
theorem Leads.directory (h : Leads root k l xs k₁ l₁)
    (hdir : root.kindAt l₁ = some (.directory false)) :
    root.kindAt l = some (.directory false) := by
  cases h with
  | nil => exact hdir
  | dot hdir => exact hdir
  | up hdir => exact hdir
  | enter hname => exact hname.directory
  | follow hname => exact hname.directory

/-- A name that leads anywhere is looked up. -/
theorem Leads.looksUp (h : Leads root k l (s :: xs) k₁ l₁) (hdot : s ≠ ".") (hup : s ≠ "..") :
    LooksUp root l s ∧ root.at? (l ++ [s]) ≠ none := by
  cases h with
  | dot => exact absurd rfl hdot
  | up => exact absurd rfl hup
  | enter hname hkind =>
    exact ⟨hname, kindAt_ne_none.mp (by rw [hkind]; exact Option.some_ne_none _)⟩
  | follow hname hlink =>
    exact ⟨hname, kindAt_ne_none.mp (by rw [hlink]; exact Option.some_ne_none _)⟩

/-- Names that lead to a directory lead there with a separator at the end too. -/
theorem leads_steps {text : String} (h : Leads root k l (names text.toList) k₁ l₁)
    (hdir : root.kindAt l₁ = some (.directory false)) : Leads root k l (steps text) k₁ l₁ := by
  rw [steps_eq]
  split_ifs
  · exact h.trans (.dot hdir .nil)
  · exact h

theorem present_of_missing {through : Bool} {a : Arrival} (hnone : root.kindAt (l ++ [s]) = none)
    (hdot : s ≠ ".") (hup : s ≠ "..") (h : walk root through k l [s] = .ok a) :
    a.present = false := by
  rw [walk_cons] at h
  split at h
  · nomatch h
  · rw [if_neg hdot, if_neg hup, hnone] at h
    simp only [List.isEmpty_nil, if_true] at h
    split_ifs at h
    obtain rfl := Except.ok.inj h
    rfl
  · nomatch h

/-! ### The path of a place -/

/-- The path from the root along names. -/
def pathTo (l : Location) : Path :=
  l.foldl Path.push ⟨"/"⟩

/-- The number of bytes of the path along names. -/
def weight : Location → Nat
  | [] => 0
  | s :: l => s.utf8ByteSize + 1 + weight l

theorem pathTo_concat (l : Location) (s : String) : pathTo (l ++ [s]) = (pathTo l).push s := by
  rw [pathTo, List.foldl_append]
  rfl

theorem weight_append (l m : Location) : weight (l ++ m) = weight l + weight m := by
  induction l with
  | nil => rw [List.nil_append, weight, Nat.zero_add]
  | cons s l ih =>
    rw [List.cons_append, weight, weight, ih]
    omega

theorem weight_concat (l : Location) (s : String) :
    weight (l ++ [s]) = weight l + s.utf8ByteSize + 1 := by
  rw [weight_append]
  rfl

theorem text_push {p : Path} {part : String} (hpart : part.toList.head? ≠ some '/')
    (hne : p.text ≠ "") :
    (p.push part).text =
      if p.text.toList.getLast? = some '/' then p.text ++ part else p.text ++ "/" ++ part := by
  rw [Path.push, if_neg (by simpa using hpart)]
  split_ifs <;> simp_all

/-- Every name of a location can be the name of an entry. -/
def Named (l : Location) : Prop :=
  ∀ s ∈ l, IsName s

instance (l : Location) : Decidable (Named l) :=
  inferInstanceAs (Decidable (∀ s ∈ l, IsName s))

theorem two_mul_length_le_weight (hl : Named l) : 2 * l.length ≤ weight l := by
  induction l with
  | nil => exact Nat.le_refl 0
  | cons s l ih =>
    have hs : s.utf8ByteSize ≠ 0 :=
      String.utf8ByteSize_eq_zero_iff.not.mpr (hl s (by simp)).ne_empty
    have hle := ih fun x hx => hl x (by simp [hx])
    rw [weight, List.length_cons]
    omega

theorem getLast?_flatMap_ne_slash (hl : Named l) (hne : l ≠ []) :
    (l.flatMap fun s => '/' :: s.toList).getLast? ≠ some '/' := by
  rcases List.eq_nil_or_concat l with rfl | ⟨m, s, rfl⟩
  · exact absurd rfl hne
  · rw [List.concat_eq_append] at hl ⊢
    have hs : IsName s := hl s (by simp)
    have hlist : s.toList ≠ [] := by simpa using hs.ne_empty
    rw [List.flatMap_append, List.flatMap_singleton, List.getLast?_append_of_ne_nil _ (by simp),
      List.getLast?_cons_of_ne_nil hlist]
    exact fun hlast => hs.no_slash (List.mem_of_getLast? hlast)

/-- The path along names is made of them, with a separator before each. -/
theorem pathTo_text (hl : Named l) (hne : l ≠ []) :
    (pathTo l).text.toList = l.flatMap (fun s => '/' :: s.toList) ∧
      (pathTo l).text.utf8ByteSize = weight l := by
  induction l using List.reverseRecOn with
  | nil => exact absurd rfl hne
  | append_singleton l s ih =>
    have hs : IsName s := hl s (by simp)
    have hl' : Named l := fun x hx => hl x (by simp [hx])
    rw [pathTo_concat, weight_concat]
    rcases eq_or_ne l [] with rfl | hne'
    · have htext : ((pathTo []).push s).text = "/" ++ s := text_push hs.head? (by decide)
      rw [htext]
      refine ⟨by simp, ?_⟩
      have hslash : "/".utf8ByteSize = 1 := rfl
      have hnil : weight [] = 0 := rfl
      rw [String.utf8ByteSize_append]
      omega
    · obtain ⟨htext, hsize⟩ := ih hl' hne'
      have hnonempty : (pathTo l).text ≠ "" := by
        intro hempty
        rw [hempty] at htext
        obtain ⟨x, l', rfl⟩ := List.exists_cons_of_ne_nil hne'
        nomatch htext
      have hlast : (pathTo l).text.toList.getLast? ≠ some '/' :=
        htext ▸ getLast?_flatMap_ne_slash hl' hne'
      rw [text_push hs.head? hnonempty, if_neg hlast]
      constructor
      · simp [htext]
      · rw [String.utf8ByteSize_append, String.utf8ByteSize_append, hsize]
        have hslash : "/".utf8ByteSize = 1 := rfl
        omega

theorem pathTo_ne_empty (hl : Named l) : (pathTo l).text ≠ "" := by
  rcases eq_or_ne l [] with rfl | hne
  · decide
  · intro hempty
    have htext := (pathTo_text hl hne).1
    rw [hempty] at htext
    obtain ⟨x, l', rfl⟩ := List.exists_cons_of_ne_nil hne
    nomatch htext

theorem getLast?_pathTo (hl : Named l) (hne : l ≠ []) :
    (pathTo l).text.toList.getLast? ≠ some '/' :=
  (pathTo_text hl hne).1 ▸ getLast?_flatMap_ne_slash hl hne

theorem isAbsolute_pathTo (hl : Named l) : (pathTo l).isAbsolute = true := by
  rcases eq_or_ne l [] with rfl | hne
  · decide
  · obtain ⟨s, l', rfl⟩ := List.exists_cons_of_ne_nil hne
    rw [Path.isAbsolute, (pathTo_text hl hne).1]
    rfl

theorem names_pathTo (hl : Named l) : names (pathTo l).text.toList = l := by
  induction l using List.reverseRecOn with
  | nil => rfl
  | append_singleton l s ih =>
    have hs : IsName s := hl s (by simp)
    have hl' : Named l := fun x hx => hl x (by simp [hx])
    have hlist : s.toList ≠ [] := by simpa using hs.ne_empty
    rw [pathTo_concat, names_push (pathTo_ne_empty hl') hs.head?, ih hl',
      names_of_not_mem hlist hs.no_slash, String.ofList_toList]

theorem steps_pathTo (hl : Named l) (hne : l ≠ []) : steps (pathTo l).text = l := by
  rcases List.eq_nil_or_concat l with rfl | ⟨m, s, rfl⟩
  · exact absurd rfl hne
  · rw [List.concat_eq_append] at hl ⊢
    have hs : IsName s := hl s (by simp)
    have hm : Named m := fun x hx => hl x (by simp [hx])
    rw [pathTo_concat, steps_push (pathTo_ne_empty hm) hs.ne_empty hs.no_slash, names_pathTo hm]

theorem components_pathTo (hl : Named l) : (pathTo l).components = .root :: l.map .name := by
  induction l using List.reverseRecOn with
  | nil => rfl
  | append_singleton l s ih =>
    have hs : IsName s := hl s (by simp)
    have hl' : Named l := fun x hx => hl x (by simp [hx])
    rw [pathTo_concat, Path.components_push (pathTo_ne_empty hl') hs.head?, ih hl',
      Path.pieces_of_not_mem hs.no_slash, List.filterMap_cons,
      Path.inner?_name hs.ne_empty hs.ne_dot hs.ne_up]
    simp

theorem pieces_pathTo (hl : Named l) (hne : l ≠ []) :
    Path.pieces (pathTo l).text.toList = [] :: l.map String.toList := by
  rw [(pathTo_text hl hne).1]
  clear hne
  induction l with
  | nil => rfl
  | cons s l ih =>
    have hs : IsName s := hl s (by simp)
    have hl' : Named l := fun x hx => hl x (by simp [hx])
    rw [List.flatMap_cons, List.cons_append, Path.pieces_slash_cons,
      Path.pieces_append_of_not_mem _ hs.no_slash, ih hl']
    simp

theorem named_of_at? (hsound : root.Sound) (h : root.at? l ≠ none) : Named l := by
  induction l using List.reverseRecOn with
  | nil => exact fun _ hx => nomatch hx
  | append_singleton l s ih =>
    intro x hx
    rcases List.mem_append.mp hx with hx | hx
    · exact ih (at?_ne_none_of_append h) x hx
    · obtain rfl := List.mem_singleton.mp hx
      exact hsound.isName_of_at? h

/-! ### Below a place -/

/-- Appends a part to what follows the path of a place. -/
def extend (r s : String) : String :=
  if r.toList.getLast? = some '/' then r ++ s else r ++ "/" ++ s

/-- The path of a place with something appended. -/
def below (place : Location) (r : String) : Path :=
  ⟨(pathTo place).text ++ r⟩

variable {place : Location} {r : String} {n : Nat}

theorem below_empty (place : Location) : below place "" = pathTo place := by
  rw [below, String.append_empty]

theorem below_ne_empty (hplace : Named place) : (below place r).text ≠ "" := by
  have hne := pathTo_ne_empty hplace
  simp [below, hne]

theorem isAbsolute_below (hplace : Named place) : (below place r).isAbsolute = true := by
  have habs := isAbsolute_pathTo hplace
  have hne : (pathTo place).text.toList ≠ [] := by simpa using pathTo_ne_empty hplace
  rw [Path.isAbsolute] at habs ⊢
  rw [below, String.toList_append, List.head?_append_of_ne_nil _ hne, habs]

theorem names_below_ne_nil (hplace : Named place) (hne : place ≠ []) :
    names (below place r).text.toList ≠ [] := by
  have hchar : ∃ c ∈ (pathTo place).text.toList, c ≠ '/' := by
    by_contra hall
    refine hne ?_
    rw [← names_pathTo hplace]
    exact names_of_slashes fun c hc => by_contra fun hc' => hall ⟨c, hc, hc'⟩
  obtain ⟨c, hc, hslash⟩ := hchar
  exact names_ne_nil (by simp [below, hc]) hslash

theorem below_push (hplace : Named place) (hne : place ≠ []) (hs : s.toList.head? ≠ some '/') :
    (below place r).push s = below place (extend r s) := by
  have hlast : (below place r).text.toList.getLast? = some '/' ↔ r.toList.getLast? = some '/' := by
    rw [below, String.toList_append]
    rcases eq_or_ne r.toList [] with hr | hr
    · simpa [hr] using getLast?_pathTo hplace hne
    · rw [List.getLast?_append_of_ne_nil _ hr]
  have htext := text_push hs (below_ne_empty (r := r) hplace)
  simp only [hlast] at htext
  rw [Path.mk.injEq, htext, extend]
  split_ifs <;> simp [below, String.append_assoc]

/-- What is appended to the path of a place leads from it to a location in a tree, with so many
steps `.` on the way. -/
inductive Reaches (tree : Node) : String → Location → Nat → Prop
  | start : Reaches tree "" [] 0
  | name {r : String} {l : Location} {n : Nat} {s : String} (h : Reaches tree r l n)
      (hs : tree.at? (l ++ [s]) ≠ none) : Reaches tree (extend r s) (l ++ [s]) n
  | dot {r : String} {l : Location} {n : Nat} (h : Reaches tree r l n)
      (hdir : tree.HasDirectory l) : Reaches tree (extend r ".") l (n + 1)
  | slash {r : String} {l : Location} {n : Nat} (h : Reaches tree r l n)
      (hdir : tree.HasDirectory l) : Reaches tree (extend r "") l n

/-- The location that the names of a path say. -/
abbrev placeOf (dir : Path) : Location :=
  names dir.text.toList

/-- A plain tree lies at an absolute path without dots that is not the root. -/
structure Placed (d : Disk) (dir : Path) (tree : Node) : Prop where
  sound : d.root.Sound
  absolute : dir.isAbsolute = true
  not_root : placeOf dir ≠ []
  no_dots : ∀ s ∈ placeOf dir, s ≠ "." ∧ s ≠ ".."
  node : d.node dir = .ok tree
  directory : tree.IsDirectory
  plain : tree.Plain

/-- Where a path leads, which is not where its names say if there are links on the way. -/
def baseOf (d : Disk) (dir : Path) : Location :=
  (d.locate dir).toOption.getD []

variable {d : Disk} {dir : Path} {tree : Node}

theorem Reaches.at? (h : Reaches tree r l n) : tree.at? l ≠ none := by
  induction h with
  | start => simp [Node.at?]
  | name _ hs => exact hs
  | dot _ _ ih => exact ih
  | slash _ _ ih => exact ih

namespace Placed

variable (h : Placed d dir tree)
include h

theorem locate_base :
    d.locate dir = .ok (baseOf d dir) ∧ d.root.at? (baseOf d dir) = some tree := by
  have hnode := h.node
  unfold Disk.node at hnode
  obtain ⟨l, hl, htree⟩ := bind_eq_ok hnode
  have hbase : baseOf d dir = l := by simp [baseOf, hl, Except.toOption]
  rw [hbase]
  cases hat : d.root.at? l with
  | none => simp [hat] at htree
  | some c =>
    simp only [hat] at htree
    exact ⟨hl, by rw [Except.ok.inj htree]⟩

theorem at?_base : d.root.at? (baseOf d dir) = some tree :=
  h.locate_base.2

theorem leads_base : ∃ k, Leads d.root linkLimit [] (placeOf dir) k (baseOf d dir) := by
  obtain ⟨k, hleads⟩ := leads_of_locate h.locate_base.1
  rw [start, if_pos h.absolute] at hleads
  exact ⟨k, leads_names hleads⟩

theorem sound_tree : tree.Sound :=
  h.sound.of_at? h.at?_base

theorem hasDirectory_iff : d.root.HasDirectory (baseOf d dir ++ l) ↔ tree.HasDirectory l := by
  unfold HasDirectory
  rw [kindAt_append h.at?_base]

theorem directory_below (hdir : tree.HasDirectory l) :
    d.root.kindAt (baseOf d dir ++ l) = some (.directory false) := by
  rw [kindAt_append h.at?_base, h.plain.kindAt_directory hdir]

/-- In the tree a name leads to the node that it names. -/
theorem leads_name (hs : tree.at? (l ++ [s]) ≠ none) :
    Leads d.root k (baseOf d dir ++ l) [s] k (baseOf d dir ++ (l ++ [s])) := by
  obtain ⟨kind, hkind⟩ := Option.ne_none_iff_exists'.mp (kindAt_ne_none.mpr hs)
  have hname := h.sound_tree.isName_of_at? hs
  have hdir := h.directory_below (hasDirectory_of_concat (kindAt_ne_none.mpr hs))
  rw [← kindAt_append h.at?_base, ← List.append_assoc] at hkind
  rw [← List.append_assoc]
  refine .enter ⟨hdir, hname.ne_dot, hname.ne_up, hname.size_le⟩ hkind ?_ .nil
  rw [List.append_assoc, kindAt_append h.at?_base] at hkind
  exact h.plain.not_link hkind

theorem named : Named (placeOf dir) := by
  obtain ⟨k, hleads⟩ := h.leads_base
  intro s hs
  obtain ⟨hdot, hup⟩ := h.no_dots s hs
  obtain ⟨before, after, hplace⟩ := List.append_of_mem hs
  rw [hplace] at hleads
  obtain ⟨k₁, l₁, -, hrest⟩ := leads_append hleads
  obtain ⟨piece, hpiece, rfl⟩ := List.mem_map.mp hs
  obtain ⟨hpiece, hne⟩ := List.mem_filter.mp hpiece
  refine ⟨?_, hdot, hup, ?_, (hrest.looksUp hdot hup).1.size_le⟩
  · intro hempty
    have hnil : piece = [] := by simpa using congrArg String.toList hempty
    simp [hnil] at hne
  · rw [String.toList_ofList]
    exact Path.slash_not_mem_of_mem_pieces hpiece

theorem leads_below (hr : Reaches tree r l n) :
    ∃ k, Leads d.root linkLimit [] (steps (below (placeOf dir) r).text) k (baseOf d dir ++ l) := by
  have hne := fun r => below_ne_empty (r := r) h.named
  -- Links are followed on the way to the place only, so the tree leaves as many as there were.
  induction hr with
  | start =>
    rw [below_empty, List.append_nil, steps_pathTo h.named h.not_root]
    exact h.leads_base
  | @name r l n s _ hs ih =>
    obtain ⟨k, hleads⟩ := ih
    have hname := h.sound_tree.isName_of_at? hs
    rw [← below_push h.named h.not_root hname.head?,
      steps_push (hne r) hname.ne_empty hname.no_slash]
    exact ⟨k, (leads_names hleads).trans (h.leads_name hs)⟩
  | @dot r l n _ hdir ih =>
    obtain ⟨k, hleads⟩ := ih
    rw [← below_push h.named h.not_root (by decide), steps_push (hne r) (by decide) (by decide)]
    exact ⟨k, (leads_names hleads).trans (.dot (h.directory_below hdir) .nil)⟩
  | @slash r l n _ hdir ih =>
    obtain ⟨k, hleads⟩ := ih
    rw [← below_push h.named h.not_root (by decide), steps_push_empty (hne r)
      (names_below_ne_nil h.named h.not_root)]
    exact ⟨k, (leads_names hleads).trans (.dot (h.directory_below hdir) .nil)⟩

end Placed

/-- Whatever is reached from a place is reached by a path that is not too long: so many bytes for
the place, so many steps `.`, and a separator at the end if it is a directory. -/
structure Fits (size : Nat) (tree : Node) (dots : Nat) : Prop where
  path {l : Location} (h : tree.at? l ≠ none) : size + weight l + 2 * dots < pathLimit
  separator {l : Location} (h : tree.HasDirectory l) : size + weight l + 2 * dots + 1 < pathLimit

theorem utf8ByteSize_extend (r s : String) :
    (extend r s).utf8ByteSize =
      r.utf8ByteSize + s.utf8ByteSize + if r.toList.getLast? = some '/' then 0 else 1 := by
  have hslash : "/".utf8ByteSize = 1 := rfl
  rw [extend]
  split_ifs
  · rw [String.utf8ByteSize_append]
    omega
  · rw [String.utf8ByteSize_append, String.utf8ByteSize_append]
    omega

theorem Reaches.size_le (h : Reaches tree r l n) :
    r.utf8ByteSize ≤ weight l + 2 * n + if r.toList.getLast? = some '/' then 1 else 0 := by
  -- A separator that is there already is not written again, so one at the end is all there is.
  induction h with
  | start => simp
  | @name r l n s _ hs ih =>
    rw [utf8ByteSize_extend, weight_concat]
    split_ifs at ih ⊢ <;> omega
  | @dot r l n _ _ ih =>
    have hdot : ".".utf8ByteSize = 1 := rfl
    rw [utf8ByteSize_extend]
    split_ifs at ih ⊢ <;> omega
  | @slash r l n _ _ ih =>
    have hlast : (extend r "").toList.getLast? = some '/' := by
      rw [extend]
      split_ifs with hr <;> simp [hr]
    have hempty : "".utf8ByteSize = 0 := rfl
    rw [utf8ByteSize_extend, if_pos hlast]
    split_ifs at ih ⊢ <;> omega

/-- Only a directory is reached with a separator at the end. -/
theorem Reaches.hasDirectory (h : Reaches tree r l n) (hsound : tree.Sound)
    (hlast : r.toList.getLast? = some '/') : tree.HasDirectory l := by
  have hextend : ∀ {r s : String}, s ≠ "" → (extend r s).toList.getLast? = s.toList.getLast? := by
    intro r s hs
    have hlist : s.toList ≠ [] := by simpa using hs
    rw [extend]
    split_ifs <;> rw [String.toList_append, List.getLast?_append_of_ne_nil _ hlist]
  cases h with
  | start => nomatch hlast
  | name _ hs =>
    have hname := hsound.isName_of_at? hs
    rw [hextend hname.ne_empty] at hlast
    exact absurd (List.mem_of_getLast? hlast) hname.no_slash
  | dot _ hdir => exact hdir
  | slash _ hdir => exact hdir

namespace Placed

variable (h : Placed d dir tree) {dots : Nat}
include h

/-- **Below a place a path leads where it says.** -/
theorem locate_below (hfits : Fits (weight (placeOf dir)) tree dots) (hr : Reaches tree r l n)
    (hn : n ≤ dots) : d.locate (below (placeOf dir) r) = .ok (baseOf d dir ++ l) := by
  have hsize : (below (placeOf dir) r).text.utf8ByteSize < pathLimit := by
    have hle := hr.size_le
    rw [below, String.utf8ByteSize_append, (pathTo_text h.named h.not_root).2]
    split_ifs at hle with hlast
    · have hlt := hfits.separator (hr.hasDirectory h.sound_tree hlast)
      omega
    · have hlt := hfits.path hr.at?
      omega
  rw [locate_eq_ok_iff, arrive_eq_walk (below_ne_empty h.named) hsize, start,
    if_pos (isAbsolute_below h.named)]
  obtain ⟨k, hleads⟩ := h.leads_below hr
  exact walk_of_leads hleads

theorem isDirectory_below (hfits : Fits (weight (placeOf dir)) tree dots)
    (hr : Reaches tree r l n) (hn : n ≤ dots) :
    d.isDirectory (below (placeOf dir) r) = true ↔ tree.HasDirectory l := by
  rw [isDirectory_iff, h.locate_below hfits hr hn, ← h.hasDirectory_iff]
  simp

theorem isFile_below (hfits : Fits (weight (placeOf dir)) tree dots) (hr : Reaches tree r l n)
    (hn : n ≤ dots) :
    d.isFile (below (placeOf dir) r) = true ↔
      ∃ content locked, tree.kindAt l = some (.file content locked) := by
  rw [isFile_iff, h.locate_below hfits hr hn, ← kindAt_append h.at?_base]
  simp

theorem readBytes_below (hfits : Fits (weight (placeOf dir)) tree dots) (hr : Reaches tree r l n)
    (hn : n ≤ dots) :
    d.readBytes (below (placeOf dir) r) =
      match tree.kindAt l with
      | none => .error .notFound
      | some (.file _ true) | some (.directory true) => .error .denied
      | some (.file content false) => .ok content
      | some (.directory false) => .error .isDirectory
      | some (.link _) => .error .tooManyLinks := by
  rw [readBytes_eq, h.locate_below hfits hr hn, ← kindAt_append h.at?_base]
  rfl

theorem list_below (hfits : Fits (weight (placeOf dir)) tree dots) (hr : Reaches tree r l n)
    (hn : n ≤ dots) (hdir : tree.HasDirectory l) {names : List String}
    (hnames : tree.namesAt l = some names) :
    d.list (below (placeOf dir) r) = .ok (names.mergeSort nameLE) := by
  rw [list_eq (h.locate_below hfits hr hn) (h.directory_below hdir)
    ((namesAt_append h.at?_base l).trans hnames)]
  rfl

/-- Where nothing is in the tree, nothing is on the disk. -/
theorem not_presentOrLink (hr : Reaches tree r l n) {part t : String}
    (hpart : part.toList.head? ≠ some '/')
    (hsteps : steps ((below (placeOf dir) r).push part).text =
      names (below (placeOf dir) r).text.toList ++ [t])
    (hwalk : ∀ through k a, walk d.root through k (baseOf d dir ++ l) [t] = .ok a →
      a.present = false) :
    d.presentOrLink ((below (placeOf dir) r).push part) = false := by
  obtain ⟨k, hleads⟩ := h.leads_below hr
  have habs : ((below (placeOf dir) r).push part).isAbsolute = true := by
    rw [Path.isAbsolute_push (below_ne_empty h.named) hpart, isAbsolute_below h.named]
  have harrive : ∀ through,
      (d.arrive through ((below (placeOf dir) r).push part)).toOption.any (·.present) = false := by
    intro through
    cases harrive : d.arrive through ((below (placeOf dir) r).push part) with
    | error fault => rfl
    | ok a =>
      obtain ⟨-, -, ha⟩ := walk_of_arrive harrive
      rw [start, if_pos habs, hsteps, walk_append_of_leads (leads_names hleads)
        (.inl (List.cons_ne_nil t []))] at ha
      exact hwalk through k a ha
  rw [presentOrLink, harrive, harrive]
  rfl

theorem presentOrLink_name (hfits : Fits (weight (placeOf dir)) tree dots)
    (hr : Reaches tree r l n) (hn : n ≤ dots) (hne : s ≠ "") (hdot : s ≠ ".") (hup : s ≠ "..")
    (hslash : '/' ∉ s.toList) :
    d.presentOrLink ((below (placeOf dir) r).push s) = true ↔ tree.at? (l ++ [s]) ≠ none := by
  have hhead : s.toList.head? ≠ some '/' := fun hhead => hslash (List.mem_of_head? hhead)
  constructor
  · intro hpresent hnone
    rw [h.not_presentOrLink hr hhead (steps_push (below_ne_empty h.named) hne hslash)] at hpresent
    · nomatch hpresent
    · intro through k a ha
      have hkind : d.root.kindAt (baseOf d dir ++ l ++ [s]) = none := by
        rw [List.append_assoc, kindAt_append h.at?_base, kindAt, hnone]
        rfl
      exact present_of_missing hkind hdot hup ha
  · intro hat
    rw [below_push h.named h.not_root hhead]
    have hlocate := h.locate_below hfits (hr.name hat) hn
    simp [presentOrLink, locate_eq_ok_iff.mp hlocate, Except.toOption]

theorem presentOrLink_empty (hfits : Fits (weight (placeOf dir)) tree dots)
    (hr : Reaches tree r l n) (hn : n ≤ dots) :
    d.presentOrLink ((below (placeOf dir) r).push "") = true ↔ tree.HasDirectory l := by
  constructor
  · intro hpresent
    by_contra hdir
    rw [h.not_presentOrLink hr (by decide) (steps_push_empty (below_ne_empty h.named)
      (names_below_ne_nil h.named h.not_root))] at hpresent
    · nomatch hpresent
    · intro through k a ha
      rw [walk_barred (h.hasDirectory_iff.not.mpr hdir)] at ha
      nomatch ha
  · intro hdir
    rw [below_push h.named h.not_root (by decide)]
    have hlocate := h.locate_below hfits (hr.slash hdir) hn
    simp [presentOrLink, locate_eq_ok_iff.mp hlocate, Except.toOption]

end Placed

/-! ### What a path below a place looks like -/

/-- The pieces of what is appended to the path of a place. -/
def tailPieces (r : String) : List (List Char) :=
  (Path.pieces r.toList).tail

theorem pieces_below (hplace : Named place) (hne : place ≠ [])
    (hr : r = "" ∨ r.toList.head? = some '/') :
    Path.pieces (below place r).text.toList = [] :: (place.map String.toList ++ tailPieces r) := by
  rw [below, String.toList_append, tailPieces]
  rcases hr with rfl | hr
  · rw [String.toList_empty, List.append_nil, pieces_pathTo hplace hne]
    simp [Path.pieces]
  · obtain ⟨cs, hcs⟩ : ∃ cs, r.toList = '/' :: cs := by
      cases hlist : r.toList with
      | nil => simp [hlist] at hr
      | cons c cs => exact ⟨cs, by simp_all⟩
    rw [hcs, Path.pieces_append, pieces_pathTo hplace hne, Path.pieces_slash_cons]
    rfl

theorem Reaches.head? (h : Reaches tree r l n) : r = "" ∨ r.toList.head? = some '/' := by
  have hextend : ∀ {r s : String}, (r = "" ∨ r.toList.head? = some '/') →
      (extend r s).toList.head? = some '/' := by
    intro r s hr
    rw [extend]
    rcases hr with rfl | hr
    · simp
    · split_ifs <;> simp [hr]
  induction h with
  | start => exact .inl rfl
  | name _ _ ih => exact .inr (hextend ih)
  | dot _ _ ih => exact .inr (hextend ih)
  | slash _ _ ih => exact .inr (hextend ih)

/-- The components of what is appended to the path of a place. -/
def tailComponents (r : String) : List Path.Component :=
  (tailPieces r).filterMap Path.inner?

theorem filterMap_inner?_names (hl : Named l) :
    (l.map String.toList).filterMap Path.inner? = l.map .name := by
  induction l with
  | nil => rfl
  | cons s l ih =>
    have hs : IsName s := hl s (by simp)
    rw [List.map_cons, List.filterMap_cons, Path.inner?_name hs.ne_empty hs.ne_dot hs.ne_up,
      ih fun x hx => hl x (by simp [hx])]
    rfl

theorem components_below (hplace : Named place) (hne : place ≠ [])
    (hr : r = "" ∨ r.toList.head? = some '/') :
    (below place r).components = .root :: (place.map .name ++ tailComponents r) := by
  rw [Path.components, pieces_below hplace hne hr]
  simp only [isAbsolute_below hplace, if_true]
  rw [List.filterMap_append, filterMap_inner?_names hplace]
  rfl

theorem dropComponents_names (hl : Named l) (rest : List (List Char)) :
    Path.dropComponents (l.map .name) (l.map String.toList ++ rest) = some rest := by
  induction l with
  | nil => rfl
  | cons s l ih =>
    have hs : IsName s := hl s (by simp)
    have hinner := Path.inner?_name hs.ne_empty hs.ne_dot hs.ne_up
    simp only [List.map_cons, List.cons_append, Path.dropComponents, Path.dropIdle, hinner,
      Option.isNone_some, Bool.false_eq_true, if_false, beq_self_eq_true, if_true]
    exact ih fun x hx => hl x (by simp [hx])

theorem fileName?_push {p : Path} (hp : p.text ≠ "") (hs : IsName s) :
    (p.push s).fileName? = some s := by
  rw [Path.fileName?, Path.components_push hp hs.head?, Path.pieces_of_not_mem hs.no_slash,
    List.filterMap_cons, Path.inner?_name hs.ne_empty hs.ne_dot hs.ne_up]
  simp

theorem filterMap_inner?_pieces {l : List (List Char)}
    (h : ∀ s ∈ (l.filter (!·.isEmpty)).map String.ofList, s ≠ "." ∧ s ≠ "..") :
    l.filterMap Path.inner? = ((l.filter (!·.isEmpty)).map String.ofList).map .name := by
  induction l with
  | nil => rfl
  | cons x l ih =>
    by_cases hx : x = []
    · subst hx
      exact ih h
    · rw [List.filter_cons_of_pos (by simp [hx]), List.map_cons, List.forall_mem_cons] at h
      have hne : String.ofList x ≠ "" := fun heq => hx (by simpa using congrArg String.toList heq)
      have hinner := Path.inner?_name hne h.1.1 h.1.2
      rw [String.toList_ofList] at hinner
      rw [List.filterMap_cons, hinner, ih h.2, List.filter_cons_of_pos (by simp [hx])]
      rfl

theorem Placed.components_dir (h : Placed d dir tree) :
    dir.components = .root :: (placeOf dir).map .name := by
  have hdots := h.no_dots
  unfold placeOf names at hdots ⊢
  unfold Path.components
  cases hp : Path.pieces dir.text.toList with
  | nil => exact absurd hp (Path.pieces_ne_nil _)
  | cons first rest =>
    obtain rfl := Path.first_piece_of_isAbsolute h.absolute hp
    rw [hp] at hdots
    have hrest : rest.filterMap Path.inner? =
        ((rest.filter (!·.isEmpty)).map String.ofList).map .name := filterMap_inner?_pieces hdots
    simp only [h.absolute, if_true, hrest]
    rfl

/-- The components of a path below a place say how the tree is entered. -/
theorem Placed.components_reached (h : Placed d dir tree) (hr : Reaches tree r l n) :
    (below (placeOf dir) r).components = dir.components ++ l.map .name := by
  induction hr with
  | start =>
    rw [below_empty, components_pathTo h.named, h.components_dir, List.map_nil, List.append_nil]
  | @name r l n s _ hs ih =>
    have hname := h.sound_tree.isName_of_at? hs
    rw [← below_push h.named h.not_root hname.head?,
      Path.components_push (below_ne_empty h.named) hname.head?, ih,
      Path.pieces_of_not_mem hname.no_slash, List.filterMap_cons,
      Path.inner?_name hname.ne_empty hname.ne_dot hname.ne_up]
    simp
  | dot _ _ ih =>
    rw [← below_push h.named h.not_root (by decide),
      Path.components_push (below_ne_empty h.named) (by decide), ih]
    exact List.append_nil _
  | slash _ _ ih =>
    rw [← below_push h.named h.not_root (by decide),
      Path.components_push (below_ne_empty h.named) (by decide), ih]
    exact List.append_nil _

/-- Seen from its place, a path is what is appended. -/
theorem Placed.under?_below (h : Placed d dir tree) (hr : r = "" ∨ r.toList.head? = some '/') :
    (below (placeOf dir) r).under? dir = some (Path.remainder (tailPieces r)) := by
  unfold Path.under?
  rw [h.components_dir, components_below h.named h.not_root hr]
  simp only [beq_self_eq_true, if_true]
  rw [pieces_below h.named h.not_root hr, List.tail_cons, dropComponents_names h.named]
  rfl

/-! ### A tree and the way to it -/

/-- Directories with one entry each, along names, and a tree at the end. -/
def nest (tree : Node) : Location → Node
  | [] => tree
  | s :: l => .directory [(s, nest tree l)] false

theorem sound_nest (hl : Named l) (h : tree.Sound) : (nest tree l).Sound := by
  induction l with
  | nil => exact h
  | cons s l ih =>
    have hnested := ih fun x hx => hl x (List.mem_cons_of_mem s hx)
    refine .directory (by simp) ?_ ?_ <;> intro e he <;>
      obtain rfl := List.mem_singleton.mp he
    · exact hl s List.mem_cons_self
    · exact hnested

theorem child?_nest (tree : Node) (s : String) (l : Location) :
    (nest tree (s :: l)).child? s = some (nest tree l) := by
  simp [nest, child?]

theorem not_link_nest (htree : tree.IsDirectory) (l : Location) (target : String) :
    (nest tree l).kind ≠ .link target := by
  cases l with
  | nil =>
    obtain ⟨locked, hkind⟩ := htree
    rw [nest, hkind]
    exact Kind.noConfusion
  | cons s l => exact Kind.noConfusion

theorem leads_nest (htree : tree.IsDirectory) (hl : Named l) (h : root.at? m = some (nest tree l)) :
    Leads root k m l k (m ++ l) ∧ root.at? (m ++ l) = some tree := by
  induction l generalizing m with
  | nil =>
    rw [List.append_nil]
    exact ⟨.nil, h⟩
  | cons s l ih =>
    have hs := hl s List.mem_cons_self
    have hat : root.at? (m ++ [s]) = some (nest tree l) := by
      rw [at?_concat, h, Option.bind_some, child?_nest]
    have hdir : root.kindAt m = some (.directory false) := by
      rw [kindAt, h]
      rfl
    have hkind : root.kindAt (m ++ [s]) = some (nest tree l).kind := by
      rw [kindAt, hat, Option.map_some]
    obtain ⟨hleads, hend⟩ := ih (fun x hx => hl x (List.mem_cons_of_mem s hx)) hat
    rw [← List.singleton_append, ← List.append_assoc]
    refine ⟨.enter ⟨hdir, hs.ne_dot, hs.ne_up, hs.size_le⟩ hkind ?_ hleads, hend⟩
    exact not_link_nest htree l

/-- **Every plain tree can be placed at every path.** -/
theorem placed_nest (hsound : tree.Sound) (hplain : tree.Plain) (htree : tree.IsDirectory)
    (habs : dir.isAbsolute = true) (hroot : placeOf dir ≠ []) (hnamed : Named (placeOf dir))
    (hsize : dir.text.utf8ByteSize < pathLimit) :
    Placed { root := nest tree (placeOf dir) } dir tree where
  sound := sound_nest hnamed hsound
  absolute := habs
  not_root := hroot
  no_dots s hs := ⟨(hnamed s hs).ne_dot, (hnamed s hs).ne_up⟩
  directory := htree
  plain := hplain
  node := by
    obtain ⟨hleads, hat⟩ := leads_nest (k := linkLimit) (m := []) htree hnamed rfl
    rw [List.nil_append] at hleads hat
    have hdir : (nest tree (placeOf dir)).kindAt (placeOf dir) = some (.directory false) := by
      rw [kindAt, hat]
      exact hplain.kindAt_directory ((hasDirectory_nil tree).mpr htree)
    have hne : dir.text ≠ "" := by
      intro hempty
      simp [Path.isAbsolute, hempty] at habs
    have hlocate : Disk.locate { root := nest tree (placeOf dir) } dir = .ok (placeOf dir) := by
      rw [locate_eq_ok_iff, arrive_eq_walk hne hsize, start, if_pos habs]
      exact walk_of_leads (leads_steps hleads hdir)
    rw [Disk.node, hlocate]
    simp [Except.bind, hat]

end Disk

end CodeNotes
