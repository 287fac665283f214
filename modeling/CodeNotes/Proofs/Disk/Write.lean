import CodeNotes.Disk.Access
import CodeNotes.Proofs.Disk.Walk

/-!
# What a write changes

Setting the node at a location whose parent is a directory puts it there (`at?_setAt`) and leaves
every other location as it was, if no directory is lost (`kindAt_setAt`); setting it again changes
nothing (`setAt_setAt`).  A write that succeeds does just that, with a file, where its path leads
(`written_of_writeBytes`), so the disk before and the disk after differ by a file
(`Written.differs`).
-/

namespace CodeNotes

namespace Node

variable {n c : Node} {s t : String} {l m : Location} {locked : Bool}

/-! ### Setting an entry -/

/-- The names in a directory. -/
def names : Node → List String
  | .directory entries _ => entries.map Prod.fst
  | _ => []

/-- Whether a node is a directory. -/
def IsDirectory (n : Node) : Prop :=
  ∃ locked, n.kind = .directory locked

theorem child?_eq_none_of_not_isDirectory (h : ¬n.IsDirectory) (s : String) :
    n.child? s = none := by
  cases n with
  | file content locked => rfl
  | link target => rfl
  | directory entries locked => exact absurd ⟨locked, rfl⟩ h

theorem isDirectory_of_child? (h : n.child? s = some c) : n.IsDirectory := by
  by_contra hdir
  rw [child?_eq_none_of_not_isDirectory hdir] at h
  nomatch h

theorem any_eq_isSome_child? (entries : List (String × Node)) (locked : Bool) (s : String) :
    (entries.any fun e => e.1 == s) = ((Node.directory entries locked).child? s).isSome := by
  rw [child?, Option.isSome_map, Bool.eq_iff_iff, List.any_eq_true, List.find?_isSome]

theorem find?_map_replace (entries : List (String × Node)) (s t : String) (c : Node) :
    ((entries.map fun e => if e.1 == s then (s, c) else e).find? fun e => e.1 == t).map Prod.snd =
      if t = s then (entries.find? fun e => e.1 == s).map fun _ => c
      else (entries.find? fun e => e.1 == t).map Prod.snd := by
  induction entries with
  | nil => simp
  | cons e entries ih =>
    by_cases hs : e.1 = s
    · by_cases ht : s = t
      · simp [hs, ht]
      · have ht' : t ≠ s := Ne.symm ht
        have het : e.1 ≠ t := hs ▸ ht
        simpa [hs, ht, ht', het] using ih
    · by_cases ht : e.1 = t
      · have hts : t ≠ s := ht ▸ hs
        simp [ht, hts]
      · simpa [hs, ht] using ih

theorem child?_setChild_self (h : n.IsDirectory) : (n.setChild s (some c)).child? s = some c := by
  obtain ⟨locked, hkind⟩ := h
  cases n with
  | file content locked => nomatch hkind
  | link target => nomatch hkind
  | directory entries locked =>
    rw [setChild]
    split_ifs with hany
    · rw [any_eq_isSome_child? entries locked, child?, Option.isSome_map] at hany
      obtain ⟨e, he⟩ := Option.isSome_iff_exists.mp hany
      rw [child?, find?_map_replace, if_pos rfl, he, Option.map_some]
    · have hnone : (entries.find? fun e => e.1 == s) = none :=
        List.find?_eq_none.mpr fun e he hes => hany (List.any_eq_true.mpr ⟨e, he, hes⟩)
      simp [child?, hnone]

theorem child?_setChild_of_ne (h : t ≠ s) : (n.setChild s (some c)).child? t = n.child? t := by
  cases n with
  | file content locked => rfl
  | link target => rfl
  | directory entries locked =>
    rw [setChild]
    split_ifs
    · rw [child?, find?_map_replace, if_neg h, child?]
    · simp [child?, h.symm]

theorem kind_setChild : (n.setChild s (some c)).kind = n.kind := by
  cases n with
  | file content locked => rfl
  | link target => rfl
  | directory entries locked =>
    rw [setChild]
    split_ifs <;> rfl

theorem names_setChild (h : n.IsDirectory) :
    (n.setChild s (some c)).names = if (n.child? s).isSome then n.names else n.names ++ [s] := by
  obtain ⟨locked, hkind⟩ := h
  cases n with
  | file content locked => nomatch hkind
  | link target => nomatch hkind
  | directory entries locked =>
    rw [setChild, ← any_eq_isSome_child?]
    split_ifs
    · rw [names, names, List.map_map]
      refine List.map_congr_left fun e _ => ?_
      by_cases he : e.1 = s <;> simp [he]
    · simp [names]

/-- Setting an entry again changes nothing. -/
theorem setChild_setChild :
    (n.setChild s (some c)).setChild s (some c) = n.setChild s (some c) := by
  cases n with
  | file content locked => rfl
  | link target => rfl
  | directory entries locked =>
    by_cases hany : entries.any fun e => e.1 == s
    · have hmap : (entries.map fun e => if e.1 == s then (s, c) else e).any fun e => e.1 == s := by
        obtain ⟨e, he, hes⟩ := List.any_eq_true.mp hany
        exact List.any_eq_true.mpr ⟨(s, c), List.mem_map.mpr ⟨e, he, by simp_all⟩, by simp⟩
      simp only [setChild, hany, hmap, if_true, List.map_map]
      congr 1
      refine List.map_congr_left fun e _ => ?_
      by_cases he : e.1 = s <;> simp [he]
    · have hne : ∀ e ∈ entries, ¬(e.1 == s) = true :=
        fun e he hes => hany (List.any_eq_true.mpr ⟨e, he, hes⟩)
      simp only [setChild, hany, Bool.false_eq_true, if_false]
      rw [if_pos (by simp)]
      congr 1
      rw [List.map_append]
      congr 1
      · conv_rhs => rw [← List.map_id entries]
        refine List.map_congr_left fun e he => ?_
        rw [if_neg (hne e he), id]
      · simp

/-! ### Setting a node -/

theorem setAt_of_child? {new : Option Node} (h : n.child? s = some c) (t : String) (l : Location) :
    n.setAt new (s :: t :: l) = n.setChild s (some (c.setAt new (t :: l))) := by
  simp [setAt, h]

theorem setAt_of_no_child {new : Option Node} (h : n.child? s = none) (t : String) (l : Location) :
    n.setAt new (s :: t :: l) = n := by
  simp [setAt, h]

/-- Setting a node again changes nothing. -/
theorem setAt_setAt (n c : Node) (l : Location) :
    (n.setAt (some c) l).setAt (some c) l = n.setAt (some c) l := by
  induction l generalizing n with
  | nil => rfl
  | cons s l ih =>
    cases l with
    | nil => exact setChild_setChild
    | cons t l =>
      cases hs : n.child? s with
      | none => rw [setAt_of_no_child hs, setAt_of_no_child hs]
      | some c' =>
        have hset := child?_setChild_self (s := s) (c := c'.setAt (some c) (t :: l))
          (isDirectory_of_child? hs)
        rw [setAt_of_child? hs, setAt_of_child? hset, ih, setChild_setChild]

theorem hasDirectory_nil (n : Node) : n.HasDirectory [] ↔ n.IsDirectory := by
  simp [HasDirectory, IsDirectory, kindAt, at?]

theorem hasDirectory_cons (n : Node) (s : String) (l : Location) :
    n.HasDirectory (s :: l) ↔ ∃ c, n.child? s = some c ∧ c.HasDirectory l := by
  unfold HasDirectory kindAt
  rw [at?]
  cases n.child? s <;> simp

theorem concat_eq_cons_cons (t : String) (m : Location) (s : String) :
    ∃ u r, t :: (m ++ [s]) = t :: u :: r ∧ m ++ [s] = u :: r := by
  cases m with
  | nil => exact ⟨s, [], rfl, rfl⟩
  | cons u r => exact ⟨u, r ++ [s], rfl, rfl⟩

theorem hasDirectory_of_concat (h : n.kindAt (m ++ [s]) ≠ none) :
    n.HasDirectory m := by
  rw [kindAt_ne_none, at?_concat] at h
  cases hm : n.at? m with
  | none => simp [hm] at h
  | some c =>
    cases hs : c.child? s with
    | none => simp [hm, hs] at h
    | some e =>
      obtain ⟨locked, hkind⟩ := isDirectory_of_child? hs
      exact ⟨locked, by rw [kindAt, hm, Option.map_some, hkind]⟩

theorem hasDirectory_dropLast (h : n.HasDirectory l) :
    n.HasDirectory l.dropLast := by
  rcases List.eq_nil_or_concat l with rfl | ⟨m, s, rfl⟩
  · exact h
  · obtain ⟨locked, hkind⟩ := h
    rw [List.concat_eq_append] at hkind ⊢
    rw [List.dropLast_concat]
    refine hasDirectory_of_concat (s := s) ?_
    rw [hkind]
    exact Option.some_ne_none _

theorem hasDirectory_root (h : n.HasDirectory l) : n.HasDirectory [] := by
  cases l with
  | nil => exact h
  | cons s l =>
    obtain ⟨c, hc, -⟩ := (hasDirectory_cons n s l).mp h
    exact (hasDirectory_nil n).mpr (isDirectory_of_child? hc)

/-- A node that is set in a directory is there. -/
theorem at?_setAt (h : n.HasDirectory m) : (n.setAt (some c) (m ++ [s])).at? (m ++ [s]) = some c := by
  induction m generalizing n with
  | nil =>
    rw [hasDirectory_nil] at h
    simp [setAt, at?, child?_setChild_self h]
  | cons t m ih =>
    obtain ⟨c', hc', hm⟩ := (hasDirectory_cons n t m).mp h
    obtain ⟨u, r, heq, hr⟩ := concat_eq_cons_cons t m s
    rw [List.cons_append, heq, setAt_of_child? hc', at?,
      child?_setChild_self (isDirectory_of_child? hc'), ← hr]
    exact ih hm

theorem at?_eq_none_of_not_isDirectory (h : ¬n.IsDirectory) (hl : l ≠ []) : n.at? l = none := by
  cases l with
  | nil => exact absurd rfl hl
  | cons t l => rw [at?, child?_eq_none_of_not_isDirectory h, Option.bind_none]

/-- **All other locations stay as they were**, unless a directory is lost. -/
theorem kindAt_setAt (h : n.HasDirectory m) (hold : ¬n.HasDirectory (m ++ [s]))
    (hnew : ¬c.IsDirectory) (hl : l ≠ m ++ [s]) :
    (n.setAt (some c) (m ++ [s])).kindAt l = n.kindAt l := by
  induction m generalizing n l with
  | nil =>
    rw [List.nil_append, setAt]
    cases l with
    | nil => simp [kindAt, at?, kind_setChild]
    | cons t l =>
      by_cases ht : t = s
      · subst ht
        have hne : l ≠ [] := fun hnil => hl (by rw [hnil]; rfl)
        have hnone : (n.child? t).bind (·.at? l) = none := by
          cases hc : n.child? t with
          | none => rfl
          | some c' =>
            refine at?_eq_none_of_not_isDirectory (fun hdir => hold ?_) hne
            exact (hasDirectory_cons n t []).mpr ⟨c', hc, (hasDirectory_nil c').mpr hdir⟩
        rw [kindAt, kindAt, at?, at?, hnone, child?_setChild_self ((hasDirectory_nil n).mp h),
          Option.bind_some, at?_eq_none_of_not_isDirectory hnew hne]
      · rw [kindAt, kindAt, at?, at?, child?_setChild_of_ne ht]
  | cons t m ih =>
    obtain ⟨c', hc', hm⟩ := (hasDirectory_cons n t m).mp h
    obtain ⟨u, r, heq, hr⟩ := concat_eq_cons_cons t m s
    rw [List.cons_append, heq, setAt_of_child? hc', ← hr]
    cases l with
    | nil => simp [kindAt, at?, kind_setChild]
    | cons x l =>
      by_cases hx : x = t
      · subst hx
        have hold' : ¬c'.HasDirectory (m ++ [s]) := fun hdir =>
          hold ((hasDirectory_cons n x (m ++ [s])).mpr ⟨c', hc', hdir⟩)
        have hl' : l ≠ m ++ [s] := fun heq => hl (by rw [heq]; rfl)
        have hkind := ih hm hold' hl'
        rw [kindAt, kindAt] at hkind
        rw [kindAt, kindAt, at?, at?, child?_setChild_self (isDirectory_of_child? hc'), hc']
        exact hkind
      · rw [kindAt, kindAt, at?, at?, child?_setChild_of_ne hx]

/-- The names at a location. -/
def namesAt (n : Node) (l : Location) : Option (List String) :=
  (n.at? l).map names

/-- **Directories keep their names**, and the one in which a node is set gets a name if there was
none. -/
theorem namesAt_setAt (h : n.HasDirectory m) (hold : ¬n.HasDirectory (m ++ [s]))
    (hl : n.HasDirectory l) :
    (n.setAt (some c) (m ++ [s])).namesAt l =
      if l = m ∧ n.at? (m ++ [s]) = none then (n.namesAt l).map (· ++ [s]) else n.namesAt l := by
  induction m generalizing n l with
  | nil =>
    have hdir := (hasDirectory_nil n).mp h
    have hat : n.at? ([] ++ [s]) = n.child? s := by simp [at?]
    rw [hat, List.nil_append, setAt]
    cases l with
    | nil =>
      rw [namesAt, namesAt, at?, at?, Option.map_some, Option.map_some, names_setChild hdir]
      cases n.child? s <;> simp
    | cons t l =>
      obtain ⟨c', hc', hl'⟩ := (hasDirectory_cons n t l).mp hl
      have hne : t ≠ s := by
        rintro rfl
        exact hold ((hasDirectory_cons n t []).mpr ⟨c', hc', hasDirectory_root hl'⟩)
      simp [namesAt, at?, child?_setChild_of_ne hne]
  | cons t m ih =>
    obtain ⟨c', hc', hm⟩ := (hasDirectory_cons n t m).mp h
    obtain ⟨u, r, heq, hr⟩ := concat_eq_cons_cons t m s
    have hset := child?_setChild_self (s := t) (c := c'.setAt (some c) (m ++ [s]))
      (isDirectory_of_child? hc')
    have hat : n.at? (t :: m ++ [s]) = c'.at? (m ++ [s]) := by
      rw [List.cons_append, at?, hc', Option.bind_some]
    rw [hat, List.cons_append, heq, setAt_of_child? hc', ← hr]
    cases l with
    | nil => simp [namesAt, at?, names_setChild (isDirectory_of_child? hc'), hc']
    | cons x l =>
      obtain ⟨e, he, hl'⟩ := (hasDirectory_cons n x l).mp hl
      by_cases hx : x = t
      · subst hx
        obtain rfl : e = c' := Option.some.inj (he.symm.trans hc')
        have hold' : ¬e.HasDirectory (m ++ [s]) := fun hdir =>
          hold ((hasDirectory_cons n x (m ++ [s])).mpr ⟨e, he, hdir⟩)
        have hnames := ih hm hold' hl'
        rw [namesAt, namesAt] at hnames
        rw [namesAt, namesAt, at?, at?, hset, hc', Option.bind_some, Option.bind_some, hnames]
        simp
      · rw [namesAt, namesAt, at?, at?, child?_setChild_of_ne hx, if_neg (by simp [hx])]

end Node

namespace Disk

open Node

variable {root : Node} {through : Bool} {k : Nat} {l : Location} {xs : List String} {a : Arrival}

/-! ### Where a walk arrives -/

/-- A walk arrives at a node, or beside the nodes of an open directory. -/
theorem arrival_of_walk (h : walk root through k l xs = .ok a) (hl : root.kindAt l ≠ none) :
    a.present = true ∧ root.kindAt a.location ≠ none ∨
      a.present = false ∧ root.kindAt a.location = none ∧
        ∃ m s, a.location = m ++ [s] ∧ root.HasDirectory m := by
  have hwalks := walks root through k l xs
  rw [h] at hwalks
  generalize hr : Except.ok a = r at hwalks
  clear h
  induction hwalks with
  | arrived =>
    obtain rfl := Except.ok.inj hr
    exact .inl ⟨rfl, hl⟩
  | missing hname hnone =>
    obtain rfl := Except.ok.inj hr
    exact .inr ⟨rfl, hnone, _, _, rfl, false, hname.directory⟩
  | stopped _ hlink _ =>
    obtain rfl := Except.ok.inj hr
    exact .inl ⟨rfl, by rw [hlink]; exact Option.some_ne_none _⟩
  | dot _ _ ih => exact ih hl hr
  | up _ _ ih => exact ih (kindAt_ne_none.mpr (at?_dropLast (kindAt_ne_none.mp hl))) hr
  | entered _ hkind _ _ ih => exact ih (by rw [hkind]; exact Option.some_ne_none _) hr
  | followed _ _ _ _ ih =>
    refine ih ?_ hr
    split_ifs
    · exact Option.some_ne_none _
    · exact hl
  | locked | barred | tooLong | lost | exhausted => nomatch hr

/-- A walk that arrives beside the nodes of a directory has looked up a name there. -/
theorem looksUp_of_walk {m : Location} {s : String}
    (h : walk root through k l xs = .ok ⟨m ++ [s], false⟩)
    (hxs : ∀ x ∈ xs, x ≠ "" ∧ '/' ∉ x.toList) : LooksUp root m s ∧ s ≠ "" ∧ '/' ∉ s.toList := by
  have hwalks := walks root through k l xs
  rw [h] at hwalks
  generalize hr : (Except.ok ⟨m ++ [s], false⟩ : Except Fault Arrival) = r at hwalks
  clear h
  induction hwalks with
  | missing hname hnone =>
    obtain ⟨hlocation, -⟩ := Arrival.mk.inj (Except.ok.inj hr)
    obtain ⟨rfl, hs⟩ := List.append_inj' hlocation rfl
    obtain rfl := List.singleton_inj.mp hs
    exact ⟨hname, hxs s (List.mem_singleton_self s)⟩
  | dot _ _ ih => exact ih (fun x hx => hxs x (List.mem_cons_of_mem _ hx)) hr
  | up _ _ ih => exact ih (fun x hx => hxs x (List.mem_cons_of_mem _ hx)) hr
  | entered _ _ _ _ ih => exact ih (fun x hx => hxs x (List.mem_cons_of_mem _ hx)) hr
  | followed _ _ _ _ ih =>
    refine ih (fun x hx => ?_) hr
    rcases List.mem_append.mp hx with hx | hx
    · exact mem_steps hx
    · exact hxs x (List.mem_cons_of_mem _ hx)
  | arrived | stopped => exact absurd (congrArg Arrival.present (Except.ok.inj hr)) Bool.false_ne_true
  | locked | barred | tooLong | lost | exhausted => nomatch hr

theorem hasDirectory_of_walk_cons {s : String} {rest : List String}
    (h : walk root through k l (s :: rest) = .ok a) : root.kindAt l = some (.directory false) := by
  have hwalks := walks root through k l (s :: rest)
  rw [h] at hwalks
  cases hwalks with
  | dot hdir => exact hdir
  | up hdir => exact hdir
  | missing hname => exact hname.directory
  | stopped hname => exact hname.directory
  | followed hname => exact hname.directory
  | entered hname => exact hname.directory

theorem not_link_of_hasDirectory {l : Location} (h : root.HasDirectory l) (target : String) :
    root.kindAt l ≠ some (.link target) := by
  obtain ⟨locked, hdir⟩ := h
  rw [hdir]
  simp

/-- Steps that are followed to the end lead to no link. -/
theorem Leads.not_link {k' : Nat} {m : Location} (h : Leads root k l xs k' m)
    (hl : ∀ target, root.kindAt l ≠ some (.link target)) :
    ∀ target, root.kindAt m ≠ some (.link target) := by
  induction h with
  | nil => exact hl
  | dot _ _ ih => exact ih hl
  | up hdir _ ih => exact ih (not_link_of_hasDirectory (hasDirectory_dropLast ⟨false, hdir⟩))
  | enter _ hkind hlink _ ih =>
    refine ih fun target h => ?_
    rw [hkind] at h
    exact hlink target (Option.some.inj h)
  | follow hname _ _ _ ihTarget ihRest =>
    have hdir : root.HasDirectory _ := ⟨false, hname.directory⟩
    refine ihRest (ihTarget ?_)
    split_ifs
    · exact not_link_of_hasDirectory (hasDirectory_root hdir)
    · exact not_link_of_hasDirectory hdir

/-! ### Writing -/

variable {d d' : Disk} {p : Path} {content : ByteArray}

/-- What a write has done: a file with the content is where the path leads, and the tree is the old
one apart from it. -/
structure Written (d : Disk) (p : Path) (content : ByteArray) (d' : Disk) (l : Location) : Prop where
  arrive : d.arrive true p = .ok ⟨l, (d.root.kindAt l).isSome⟩
  root : d'.root = d.root.setAt (some (.file content false)) l
  here : d'.here = d.here
  parent : ∃ m s, l = m ++ [s] ∧ d.root.HasDirectory m
  before : d.root.kindAt l = none ∨ ∃ old, d.root.kindAt l = some (.file old false)

theorem bind_eq_ok {α β ε : Type} {x : Except ε α} {f : α → Except ε β} {b : β}
    (h : x.bind f = .ok b) : ∃ a, x = .ok a ∧ f a = .ok b := by
  cases x with
  | error e => nomatch h
  | ok a => exact ⟨a, rfl, h⟩

theorem map_eq_ok {α β ε : Type} {x : Except ε α} {f : α → β} {b : β} (h : x.map f = .ok b) :
    ∃ a, x = .ok a ∧ f a = b := by
  cases x with
  | error e => nomatch h
  | ok a => exact ⟨a, rfl, Except.ok.inj h⟩

theorem asksForDirectory_of_writeBytes (h : d.writeBytes p content = .ok d') :
    asksForDirectory p = false := by
  by_contra hask
  rw [Bool.not_eq_false] at hask
  obtain ⟨a, -, ha⟩ := bind_eq_ok h
  simp only [hask, if_true] at ha
  split at ha <;> nomatch ha

theorem steps_ne_nil (hne : p.text ≠ "") (hask : asksForDirectory p = false) :
    steps p.text ≠ [] := by
  have hlist : p.text.toList ≠ [] := by simpa using hne
  have hlast : p.text.toList.getLast hlist ≠ '/' := by
    intro heq
    simp [asksForDirectory, List.getLast?_eq_some_getLast hlist, heq] at hask
  have hnames := names_ne_nil (List.getLast_mem hlist) hlast
  rw [steps_eq]
  split_ifs <;> simp [hnames]

/-- **A write that succeeds** puts the file where its path leads, in an open directory, where nothing
or an open file was. -/
theorem written_of_writeBytes (h : d.writeBytes p content = .ok d') :
    ∃ l, Written d p content d' l := by
  have hask := asksForDirectory_of_writeBytes h
  unfold writeBytes at h
  simp only [hask, Bool.false_and, Bool.false_eq_true, if_false] at h
  obtain ⟨⟨l, present⟩, harrive, hset⟩ := bind_eq_ok h
  obtain ⟨hne, -, hwalk⟩ := walk_of_arrive harrive
  obtain ⟨first, rest, hsteps⟩ := List.exists_cons_of_ne_nil (steps_ne_nil hne hask)
  rw [hsteps] at hwalk
  have hstart := hasDirectory_of_walk_cons hwalk
  have hroot : d.root.HasDirectory [] := hasDirectory_root ⟨false, hstart⟩
  have hsome : d.root.kindAt (d.start p) ≠ none := by simp [hstart]
  rcases arrival_of_walk hwalk hsome with ⟨hpresent, hkind⟩ | ⟨hpresent, hnone, hparent⟩
  · -- The path leads to a node, which can only be an open file.
    dsimp only at hpresent hkind
    subst hpresent
    obtain ⟨k, hleads⟩ := exists_leads_of_walk hwalk
    have hlink := hleads.not_link (not_link_of_hasDirectory ⟨false, hstart⟩)
    obtain ⟨old, hold⟩ : ∃ old, d.root.at? l = some (.file old false) := by
      unfold kindAt at hkind hlink
      simp only [if_true] at hset
      cases hl : d.root.at? l with
      | none => simp [hl] at hkind
      | some n =>
        cases n with
        | link target => exact absurd (by rw [hl]; rfl) (hlink target)
        | directory entries locked => simp [hl] at hset
        | file old locked => cases locked <;> simp_all
    simp only [if_true, hold, Bool.false_eq_true, if_false] at hset
    obtain rfl := Except.ok.inj hset
    have hfile : d.root.kindAt l = some (.file old false) := by rw [kindAt, hold]; rfl
    refine ⟨l, by rw [harrive, hfile]; rfl, rfl, rfl, ?_, .inr ⟨old, hfile⟩⟩
    rcases List.eq_nil_or_concat l with rfl | ⟨m, s, rfl⟩
    · obtain ⟨locked, hdir⟩ := hroot
      rw [hdir] at hfile
      cases hfile
    · rw [List.concat_eq_append] at hkind ⊢
      exact ⟨m, s, rfl, hasDirectory_of_concat hkind⟩
  · dsimp only at hpresent hnone hparent
    subst hpresent
    simp only [Bool.false_eq_true, if_false] at hset
    obtain rfl := Except.ok.inj hset
    exact ⟨l, by rw [harrive, hnone]; rfl, rfl, rfl, hparent, .inl hnone⟩

/-- Two disks that differ at most by an open file, which need not be there before. -/
structure Differs (d d' : Disk) (l : Location) : Prop where
  before : d.root.kindAt l = none ∨ ∃ old, d.root.kindAt l = some (.file old false)
  after : ∃ content, d'.root.kindAt l = some (.file content false)
  other : ∀ m ≠ l, d'.root.kindAt m = d.root.kindAt m
  here : d'.here = d.here

namespace Written

variable {l : Location} (h : Written d p content d' l)
include h

theorem not_hasDirectory : ¬d.root.HasDirectory l := by
  rintro ⟨locked, hdir⟩
  rcases h.before with hnone | ⟨old, hfile⟩ <;> simp_all

theorem at?_self : d'.root.at? l = some (.file content false) := by
  obtain ⟨m, s, rfl, hm⟩ := h.parent
  rw [h.root, at?_setAt hm]

/-- A file that was not there before has the name of a step. -/
theorem looksUp {m : Location} {s : String} (hl : l = m ++ [s]) (hnone : d.root.kindAt l = none) :
    LooksUp d.root m s ∧ s ≠ "" ∧ '/' ∉ s.toList := by
  have harrive := h.arrive
  rw [hnone] at harrive
  subst hl
  exact looksUp_of_walk (walk_of_arrive harrive).2.2 fun x hx => mem_steps hx

theorem differs : Differs d d' l where
  before := h.before
  after := ⟨content, by rw [kindAt, h.at?_self]; rfl⟩
  other q hq := by
    obtain ⟨m, s, rfl, hm⟩ := h.parent
    rw [h.root]
    refine kindAt_setAt hm h.not_hasDirectory ?_ hq
    rintro ⟨locked, hkind⟩
    cases hkind
  here := h.here

end Written

end Disk

end CodeNotes
