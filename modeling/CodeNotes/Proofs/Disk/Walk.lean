import CodeNotes.Disk.Walk
import CodeNotes.Proofs.Path.Components

/-!
# Where paths lead

A walk sees of a tree only what kind of node lies at which location (`walk_cons`), and `Disk.Walks`
says what can happen on it (`walks`).  `Disk.Leads` is what is left of it when all goes well: from
one location, with so many links to spare, the steps lead to another, with so many links left.  A
walk goes on from wherever its first steps lead (`walk_append_of_leads`), and it arrives at a node
only where its steps lead (`exists_leads_of_walk`).

Steps `.` do not count (`Leads.withoutDots`), so spellings with the same components lead to the same
location if they lead anywhere (`locate_congr`).
-/

namespace CodeNotes

namespace Node

/-! ### Trees, location by location -/

/-- What a node is, apart from what is in it. -/
inductive Kind where
  | file (content : ByteArray) (locked : Bool)
  | directory (locked : Bool)
  | link (target : String)

/-- The kind of a node. -/
def kind : Node → Kind
  | .file content locked => .file content locked
  | .directory _ locked => .directory locked
  | .link target => .link target

/-- The kind of the node at a location. -/
def kindAt (n : Node) (l : Location) : Option Kind :=
  (n.at? l).map kind

theorem at?_append (n : Node) (l m : Location) : n.at? (l ++ m) = (n.at? l).bind (·.at? m) := by
  induction l generalizing n with
  | nil => rfl
  | cons s l ih =>
    rw [List.cons_append, at?, at?, Option.bind_assoc]
    exact congrArg _ (funext ih)

theorem at?_concat (n : Node) (l : Location) (s : String) :
    n.at? (l ++ [s]) = (n.at? l).bind (·.child? s) := by
  rw [at?_append]
  congr 1
  funext c
  simp [at?]

theorem at?_dropLast {n : Node} {l : Location} (h : n.at? l ≠ none) : n.at? l.dropLast ≠ none := by
  rcases List.eq_nil_or_concat l with rfl | ⟨m, s, rfl⟩
  · exact h
  · rw [List.concat_eq_append] at h ⊢
    rw [List.dropLast_concat]
    intro hnone
    rw [at?_concat, hnone] at h
    exact h rfl

theorem kindAt_ne_none {n : Node} {l : Location} : n.kindAt l ≠ none ↔ n.at? l ≠ none := by
  simp [kindAt]

theorem at?_of_kindAt_directory {n : Node} {l : Location} {locked : Bool}
    (h : n.kindAt l = some (.directory locked)) :
    ∃ entries, n.at? l = some (.directory entries locked) := by
  unfold kindAt at h
  cases hl : n.at? l with
  | none => simp [hl] at h
  | some c => cases c <;> simp_all [kind]

/-- There is a directory at a location. -/
def HasDirectory (n : Node) (l : Location) : Prop :=
  ∃ locked, n.kindAt l = some (.directory locked)

end Node

namespace Disk

open Node

/-! ### One step -/

theorem walk_nil (root : Node) (through : Bool) (k : Nat) (l : Location) :
    walk root through k l [] = .ok ⟨l, true⟩ := by
  cases k <;> rfl

/-- What the next step of a walk comes to. -/
theorem walk_cons (root : Node) (through : Bool) (k : Nat) (l : Location) (s : String)
    (rest : List String) :
    walk root through k l (s :: rest) =
      match root.kindAt l with
      | some (.directory true) => .error .denied
      | some (.directory false) =>
        if s = "." then walk root through k l rest
        else if s = ".." then walk root through k l.dropLast rest
        else if s.utf8ByteSize > nameLimit then .error .nameTooLong
        else
          match root.kindAt (l ++ [s]) with
          | none => if rest.isEmpty then .ok ⟨l ++ [s], false⟩ else .error .notFound
          | some (.link target) =>
            if rest.isEmpty && !through then .ok ⟨l ++ [s], true⟩
            else
              match k with
              | 0 => .error .tooManyLinks
              | k' + 1 =>
                walk root through k' (if Path.isAbsolute ⟨target⟩ then [] else l)
                  (steps target ++ rest)
          | some _ => walk root through k (l ++ [s]) rest
      | _ => .error .notDirectory := by
  have hwith : ∀ follow, walkWith root through follow l (s :: rest) =
      match root.kindAt l with
      | some (.directory true) => .error .denied
      | some (.directory false) =>
        if s = "." then walkWith root through follow l rest
        else if s = ".." then walkWith root through follow l.dropLast rest
        else if s.utf8ByteSize > nameLimit then .error .nameTooLong
        else
          match root.kindAt (l ++ [s]) with
          | none => if rest.isEmpty then .ok ⟨l ++ [s], false⟩ else .error .notFound
          | some (.link target) =>
            if rest.isEmpty && !through then .ok ⟨l ++ [s], true⟩
            else follow (if Path.isAbsolute ⟨target⟩ then [] else l) (steps target ++ rest)
          | some _ => walkWith root through follow (l ++ [s]) rest
      | _ => .error .notDirectory := by
    intro follow
    rw [walkWith]
    cases hl : root.at? l with
    | none => simp [kindAt, hl]
    | some n =>
      cases n with
      | file content locked => simp [kindAt, hl, kind]
      | link target => simp [kindAt, hl, kind]
      | directory entries locked =>
        cases locked with
        | true => simp [kindAt, hl, kind]
        | false =>
          simp only [kindAt, hl, Option.map_some, kind, beq_iff_eq, at?_concat, Option.bind_some,
            child?]
          cases hs : (entries.find? fun e => e.1 == s).map Prod.snd with
          | none => rfl
          | some c => cases c <;> rfl
  cases k with
  | zero => exact hwith _
  | succ k => exact hwith _

/-- The step is a name, to be looked up in the open directory at a location. -/
structure LooksUp (root : Node) (l : Location) (s : String) : Prop where
  directory : root.kindAt l = some (.directory false)
  ne_dot : s ≠ "."
  ne_up : s ≠ ".."
  size_le : s.utf8ByteSize ≤ nameLimit

/-- Everything that can happen on a walk, one rule for each way to take the next step. -/
inductive Walks (root : Node) (through : Bool) :
    Nat → Location → List String → Except Fault Arrival → Prop
  | arrived {k l} : Walks root through k l [] (.ok ⟨l, true⟩)
  | locked {k l s rest} (hlocked : root.kindAt l = some (.directory true)) :
      Walks root through k l (s :: rest) (.error .denied)
  | barred {k l s rest} (hbarred : ¬root.HasDirectory l) :
      Walks root through k l (s :: rest) (.error .notDirectory)
  | dot {k l rest r} (hdir : root.kindAt l = some (.directory false))
      (hrest : Walks root through k l rest r) : Walks root through k l ("." :: rest) r
  | up {k l rest r} (hdir : root.kindAt l = some (.directory false))
      (hrest : Walks root through k l.dropLast rest r) : Walks root through k l (".." :: rest) r
  | tooLong {k l s rest} (hdir : root.kindAt l = some (.directory false)) (hdot : s ≠ ".")
      (hup : s ≠ "..") (hsize : s.utf8ByteSize > nameLimit) :
      Walks root through k l (s :: rest) (.error .nameTooLong)
  | missing {k l s} (hname : LooksUp root l s) (hnone : root.kindAt (l ++ [s]) = none) :
      Walks root through k l [s] (.ok ⟨l ++ [s], false⟩)
  | lost {k l s rest} (hname : LooksUp root l s) (hnone : root.kindAt (l ++ [s]) = none)
      (hrest : rest ≠ []) : Walks root through k l (s :: rest) (.error .notFound)
  | stopped {k l s target} (hname : LooksUp root l s)
      (hlink : root.kindAt (l ++ [s]) = some (.link target)) (hstop : through = false) :
      Walks root through k l [s] (.ok ⟨l ++ [s], true⟩)
  | exhausted {l s rest target} (hname : LooksUp root l s)
      (hlink : root.kindAt (l ++ [s]) = some (.link target)) (hgo : rest ≠ [] ∨ through = true) :
      Walks root through 0 l (s :: rest) (.error .tooManyLinks)
  | followed {k l s rest target r} (hname : LooksUp root l s)
      (hlink : root.kindAt (l ++ [s]) = some (.link target)) (hgo : rest ≠ [] ∨ through = true)
      (hrest : Walks root through k (if Path.isAbsolute ⟨target⟩ then [] else l)
        (steps target ++ rest) r) : Walks root through (k + 1) l (s :: rest) r
  | entered {k l s rest kind r} (hname : LooksUp root l s)
      (hkind : root.kindAt (l ++ [s]) = some kind) (hlink : ∀ target, kind ≠ .link target)
      (hrest : Walks root through k (l ++ [s]) rest r) : Walks root through k l (s :: rest) r

/-- The rules describe every walk. -/
theorem walks (root : Node) (through : Bool) (k : Nat) (l : Location) (xs : List String) :
    Walks root through k l xs (walk root through k l xs) := by
  -- Links are used up one by one, and between two of them the steps are.
  induction k using Nat.strongRecOn generalizing l xs with
  | ind k ihLinks =>
  induction xs generalizing l with
  | nil =>
    rw [walk_nil]
    exact .arrived
  | cons s rest ih =>
    rw [walk_cons]
    split
    · next hlocked => exact .locked hlocked
    · next hdir =>
      by_cases hdot : s = "."
      · rw [if_pos hdot, hdot]
        exact .dot hdir (ih l)
      rw [if_neg hdot]
      by_cases hup : s = ".."
      · rw [if_pos hup, hup]
        exact .up hdir (ih l.dropLast)
      rw [if_neg hup]
      by_cases hsize : s.utf8ByteSize > nameLimit
      · rw [if_pos hsize]
        exact .tooLong hdir hdot hup hsize
      rw [if_neg hsize]
      have hname : LooksUp root l s := ⟨hdir, hdot, hup, Nat.not_lt.mp hsize⟩
      split
      · next hnone =>
        cases rest with
        | nil => exact .missing hname hnone
        | cons t rest => exact .lost hname hnone (List.cons_ne_nil t rest)
      · next target hlink =>
        by_cases hstop : rest = [] ∧ through = false
        · rw [hstop.1, if_pos (by simp [hstop.2])]
          exact .stopped hname hlink hstop.2
        have hgo : rest ≠ [] ∨ through = true := by
          rw [← Bool.not_eq_false]
          exact not_and_or.mp hstop
        rw [if_neg (by simpa using hstop)]
        cases k with
        | zero => exact .exhausted hname hlink hgo
        | succ k => exact .followed hname hlink hgo (ihLinks k (Nat.lt_succ_self k) _ _)
      · next kind hlink hkind => exact .entered hname hkind (fun target => hlink target) (ih (l ++ [s]))
    · next hopen hbarred =>
      refine .barred ?_
      rintro ⟨_ | _, hdir⟩
      · exact hbarred hdir
      · exact hopen hdir

/-! ### Where steps lead -/

/-- The steps lead from `l`, with `k` links to spare, to the node at `m`, with `k'` links left. -/
inductive Leads (root : Node) : Nat → Location → List String → Nat → Location → Prop
  | nil {k l} : Leads root k l [] k l
  | dot {k k' l m rest} (hdir : root.kindAt l = some (.directory false))
      (hrest : Leads root k l rest k' m) : Leads root k l ("." :: rest) k' m
  | up {k k' l m rest} (hdir : root.kindAt l = some (.directory false))
      (hrest : Leads root k l.dropLast rest k' m) : Leads root k l (".." :: rest) k' m
  | enter {k k' l m s rest kind} (hname : LooksUp root l s)
      (hkind : root.kindAt (l ++ [s]) = some kind) (hlink : ∀ target, kind ≠ .link target)
      (hrest : Leads root k (l ++ [s]) rest k' m) : Leads root k l (s :: rest) k' m
  | follow {k k₁ k' l l₁ m s rest target} (hname : LooksUp root l s)
      (hlink : root.kindAt (l ++ [s]) = some (.link target))
      (htarget : Leads root k (if Path.isAbsolute ⟨target⟩ then [] else l) (steps target) k₁ l₁)
      (hrest : Leads root k₁ l₁ rest k' m) : Leads root (k + 1) l (s :: rest) k' m

variable {root : Node} {through : Bool} {k k' k'' : Nat} {l m m' : Location} {s : String}
  {xs ys rest : List String} {target : String}

theorem walk_dot (hdir : root.kindAt l = some (.directory false)) :
    walk root through k l ("." :: rest) = walk root through k l rest := by
  rw [walk_cons, hdir]
  rfl

theorem walk_up (hdir : root.kindAt l = some (.directory false)) :
    walk root through k l (".." :: rest) = walk root through k l.dropLast rest := by
  rw [walk_cons, hdir]
  rfl

theorem walk_lookup (hname : LooksUp root l s) :
    walk root through k l (s :: rest) =
      match root.kindAt (l ++ [s]) with
      | none => if rest.isEmpty then .ok ⟨l ++ [s], false⟩ else .error .notFound
      | some (.link target) =>
        if rest.isEmpty && !through then .ok ⟨l ++ [s], true⟩
        else
          match k with
          | 0 => .error .tooManyLinks
          | k' + 1 =>
            walk root through k' (if Path.isAbsolute ⟨target⟩ then [] else l)
              (steps target ++ rest)
      | some _ => walk root through k (l ++ [s]) rest := by
  rw [walk_cons, hname.directory]
  dsimp only
  rw [if_neg hname.ne_dot, if_neg hname.ne_up, if_neg (Nat.not_lt.mpr hname.size_le)]

theorem walk_enter (hname : LooksUp root l s) {kind : Kind}
    (hkind : root.kindAt (l ++ [s]) = some kind) (hlink : ∀ target, kind ≠ .link target) :
    walk root through k l (s :: rest) = walk root through k (l ++ [s]) rest := by
  rw [walk_lookup hname, hkind]
  cases kind with
  | link target => exact absurd rfl (hlink target)
  | file content locked => rfl
  | directory locked => rfl

theorem walk_follow (hname : LooksUp root l s)
    (hlink : root.kindAt (l ++ [s]) = some (.link target)) (hgo : rest ≠ [] ∨ through = true) :
    walk root through (k + 1) l (s :: rest) =
      walk root through k (if Path.isAbsolute ⟨target⟩ then [] else l) (steps target ++ rest) := by
  have hstop : (rest.isEmpty && !through) = false := by
    rcases hgo with hrest | rfl
    · simp [hrest]
    · simp
  rw [walk_lookup hname, hlink]
  dsimp only
  rw [hstop, if_neg Bool.false_ne_true]

/-- A walk goes on from wherever its first steps lead. -/
theorem walk_append_of_leads (h : Leads root k l xs k' m) (hgo : ys ≠ [] ∨ through = true) :
    walk root through k l (xs ++ ys) = walk root through k' m ys := by
  induction h generalizing ys with
  | nil => rfl
  | dot hdir _ ih => rw [List.cons_append, walk_dot hdir, ih hgo]
  | up hdir _ ih => rw [List.cons_append, walk_up hdir, ih hgo]
  | enter hname hkind hlink _ ih => rw [List.cons_append, walk_enter hname hkind hlink, ih hgo]
  | @follow k k₁ k' l l₁ m s rest target hname hlink _ _ ihTarget ihRest =>
    have hrest : rest ++ ys ≠ [] ∨ through = true := hgo.imp_left fun h => by simp [h]
    rw [List.cons_append, walk_follow hname hlink hrest, ihTarget hrest, ihRest hgo]

theorem walk_of_leads (h : Leads root k l xs k' m) : walk root true k l xs = .ok ⟨m, true⟩ := by
  have hwalk : walk root true k l (xs ++ []) = walk root true k' m [] :=
    walk_append_of_leads h (.inr rfl)
  rw [List.append_nil] at hwalk
  rw [hwalk, walk_nil]

theorem leads_append (h : Leads root k l (xs ++ ys) k' m) :
    ∃ k₁ l₁, Leads root k l xs k₁ l₁ ∧ Leads root k₁ l₁ ys k' m := by
  induction xs generalizing k l with
  | nil => exact ⟨k, l, .nil, h⟩
  | cons s xs ih =>
    cases h with
    | dot hdir hrest =>
      obtain ⟨k₁, l₁, hxs, hys⟩ := ih hrest
      exact ⟨k₁, l₁, .dot hdir hxs, hys⟩
    | up hdir hrest =>
      obtain ⟨k₁, l₁, hxs, hys⟩ := ih hrest
      exact ⟨k₁, l₁, .up hdir hxs, hys⟩
    | enter hname hkind hlink hrest =>
      obtain ⟨k₁, l₁, hxs, hys⟩ := ih hrest
      exact ⟨k₁, l₁, .enter hname hkind hlink hxs, hys⟩
    | follow hname hlink htarget hrest =>
      obtain ⟨k₁, l₁, hxs, hys⟩ := ih hrest
      exact ⟨k₁, l₁, .follow hname hlink htarget hxs, hys⟩

/-- Whether a link at the end is followed makes no difference where there is none. -/
theorem walk_through {a : Arrival} (h : walk root false k l xs = .ok a)
    (hlink : ∀ target, root.kindAt a.location ≠ some (.link target)) :
    walk root true k l xs = .ok a := by
  have hwalks := walks root false k l xs
  rw [h] at hwalks
  generalize hr : Except.ok a = r at hwalks
  clear h
  induction hwalks with
  | arrived => rw [walk_nil]
  | dot hdir _ ih => rw [walk_dot hdir, ih hr]
  | up hdir _ ih => rw [walk_up hdir, ih hr]
  | missing hname hnone =>
    rw [walk_lookup hname, hnone]
    rfl
  | stopped _ hlinked _ =>
    obtain rfl := Except.ok.inj hr
    exact absurd hlinked (hlink _)
  | followed hname hlinked hgo _ ih =>
    rw [walk_follow hname hlinked (.inl (hgo.resolve_right Bool.false_ne_true)), ih hr]
  | entered hname hkind hfree _ ih => rw [walk_enter hname hkind hfree, ih hr]
  | locked | barred | tooLong | lost | exhausted => nomatch hr

/-- A walk that arrives at a node does so where its steps lead. -/
theorem exists_leads_of_walk (h : walk root true k l xs = .ok ⟨m, true⟩) :
    ∃ k', Leads root k l xs k' m := by
  have hwalks := walks root true k l xs
  rw [h] at hwalks
  generalize hr : (Except.ok ⟨m, true⟩ : Except Fault Arrival) = r at hwalks
  clear h
  induction hwalks with
  | arrived =>
    obtain ⟨rfl, -⟩ := Arrival.mk.inj (Except.ok.inj hr)
    exact ⟨_, .nil⟩
  | dot hdir _ ih =>
    obtain ⟨k', hrest⟩ := ih hr
    exact ⟨k', .dot hdir hrest⟩
  | up hdir _ ih =>
    obtain ⟨k', hrest⟩ := ih hr
    exact ⟨k', .up hdir hrest⟩
  | followed hname hlink _ _ ih =>
    obtain ⟨k', hleads⟩ := ih hr
    obtain ⟨k₁, l₁, htarget, hrest⟩ := leads_append hleads
    exact ⟨k', .follow hname hlink htarget hrest⟩
  | entered hname hkind hlink _ ih =>
    obtain ⟨k', hrest⟩ := ih hr
    exact ⟨k', .enter hname hkind hlink hrest⟩
  | stopped _ _ hstop => nomatch hstop
  | missing => nomatch hr
  | locked | barred | tooLong | lost | exhausted => nomatch hr

theorem Leads.unique (h : Leads root k l xs k' m) (h' : Leads root k l xs k'' m') : m = m' := by
  have hwalk := (walk_of_leads h).symm.trans (walk_of_leads h')
  exact congrArg Arrival.location (Except.ok.inj hwalk)

/-- Steps `.` may be left out. -/
theorem Leads.withoutDots (h : Leads root k l xs k' m) :
    Leads root k l (xs.filter (· ≠ ".")) k' m := by
  induction h with
  | nil => exact .nil
  | dot _ _ ih => exact ih
  | up hdir _ ih => exact .up hdir ih
  | enter hname hkind hlink _ ih =>
    rw [List.filter_cons_of_pos (by simpa using hname.ne_dot)]
    exact .enter hname hkind hlink ih
  | follow hname hlink htarget _ _ ih =>
    rw [List.filter_cons_of_pos (by simpa using hname.ne_dot)]
    exact .follow hname hlink htarget ih

/-! ### Paths -/

/-- The steps of a text that are written out: the pieces that are not empty. -/
def names (cs : List Char) : List String :=
  ((Path.pieces cs).filter (!·.isEmpty)).map String.ofList

theorem steps_eq (text : String) :
    steps text = if (Path.pieces text.toList).getLast? == some [] && !(names text.toList).isEmpty
      then names text.toList ++ ["."] else names text.toList :=
  rfl

theorem names_ne_nil {cs : List Char} {c : Char} (hc : c ∈ cs) (hne : c ≠ '/') : names cs ≠ [] := by
  induction cs with
  | nil => nomatch hc
  | cons x cs ih =>
    by_cases hx : x = '/'
    · have hmem : c ∈ cs := (List.mem_cons.mp hc).resolve_left fun h => hne (h.trans hx)
      rw [hx, names, Path.pieces_slash_cons]
      exact ih hmem
    · rw [names, Path.pieces_cons_of_ne cs hx]
      cases hp : Path.pieces cs with
      | nil => exact absurd hp (Path.pieces_ne_nil cs)
      | cons first rest => simp

theorem names_of_slashes {cs : List Char} (h : ∀ c ∈ cs, c = '/') : names cs = [] := by
  induction cs with
  | nil => rfl
  | cons c cs ih =>
    obtain ⟨rfl, hcs⟩ := List.forall_mem_cons.mp h
    rw [names, Path.pieces_slash_cons]
    exact ih hcs

theorem Leads.of_dot (h : Leads root k l ["."] k' m) :
    root.kindAt l = some (.directory false) ∧ k' = k ∧ m = l := by
  generalize hdot : ["."] = ys at h
  cases h with
  | nil => nomatch hdot
  | dot hdir hrest =>
    obtain ⟨-, rfl⟩ := List.cons.inj hdot
    cases hrest with
    | nil => exact ⟨hdir, rfl, rfl⟩
  | up => exact absurd (List.cons.inj hdot).1 (by decide)
  | enter hname => exact absurd (List.cons.inj hdot).1.symm hname.ne_dot
  | follow hname => exact absurd (List.cons.inj hdot).1.symm hname.ne_dot

/-- A step that is written out is not empty and has no separator. -/
theorem mem_steps {text x : String} (h : x ∈ steps text) : x ≠ "" ∧ '/' ∉ x.toList := by
  have hnames : x ∈ names text.toList ∨ x = "." := by
    rw [steps_eq] at h
    split_ifs at h
    · simpa using h
    · exact .inl h
  rcases hnames with hx | rfl
  · obtain ⟨piece, hpiece, rfl⟩ := List.mem_map.mp hx
    rw [List.mem_filter] at hpiece
    have hne : piece ≠ [] := by simpa using hpiece.2
    refine ⟨fun hempty => hne (by simpa using congrArg String.toList hempty), ?_⟩
    rw [String.toList_ofList]
    exact Path.slash_not_mem_of_mem_pieces hpiece.1
  · decide

/-- A separator at the end only asks for a directory. -/
theorem leads_names {text : String} (h : Leads root k l (steps text) k' m) :
    Leads root k l (names text.toList) k' m := by
  rw [steps_eq] at h
  split_ifs at h
  · obtain ⟨k₁, l₁, hnames, hdot⟩ := leads_append h
    obtain ⟨-, rfl, rfl⟩ := hdot.of_dot
    exact hnames
  · exact h

theorem names_of_not_mem {cs : List Char} (hne : cs ≠ []) (h : '/' ∉ cs) :
    names cs = [String.ofList cs] := by
  simp [names, Path.pieces_of_not_mem h, hne]

theorem names_push {p : Path} {part : String} (hne : p.text ≠ "")
    (hpart : part.toList.head? ≠ some '/') :
    names (p.push part).text.toList = names p.text.toList ++ names part.toList := by
  obtain ⟨front, -, hp | hp, hpush⟩ := Path.pieces_push hne hpart
  · simp [names, hp, hpush]
  · simp [names, hp, hpush]

/-- The steps of a path to which a name is appended. -/
theorem steps_push {p : Path} {part : String} (hne : p.text ≠ "") (hpart : part ≠ "")
    (hslash : '/' ∉ part.toList) :
    steps (p.push part).text = names p.text.toList ++ [part] := by
  have hlist : part.toList ≠ [] := by simpa using hpart
  have hhead : part.toList.head? ≠ some '/' := fun h => hslash (List.mem_of_head? h)
  have hlast : (Path.pieces (p.push part).text.toList).getLast? = some part.toList := by
    obtain ⟨front, -, -, hpush⟩ := Path.pieces_push hne hhead
    rw [hpush, Path.pieces_of_not_mem hslash, List.getLast?_append, List.getLast?_singleton]
    rfl
  rw [steps_eq, hlast, names_push hne hhead, names_of_not_mem hlist hslash, String.ofList_toList]
  simp [hpart]

/-- An empty name asks for a directory. -/
theorem steps_push_empty {p : Path} (hne : p.text ≠ "") (hnames : names p.text.toList ≠ []) :
    steps (p.push "").text = names p.text.toList ++ ["."] := by
  have hlast : (Path.pieces (p.push "").text.toList).getLast? = some [] := by
    obtain ⟨front, -, -, hpush⟩ := @Path.pieces_push p "" hne (by simp)
    rw [hpush]
    exact List.getLast?_concat
  have hpush : names (p.push "").text.toList = names p.text.toList := by
    rw [names_push hne (by simp)]
    exact List.append_nil _
  rw [steps_eq, hlast, hpush, if_pos (by simp [hnames])]

/-- The step that a component asks for, if any. -/
def stepOf? : Path.Component → Option String
  | .root | .current => none
  | .parent => some ".."
  | .name s => some s

theorem stepOf?_inner? (x : List Char) :
    (Path.inner? x).bind stepOf? = if x = [] ∨ x = ['.'] then none else some (String.ofList x) := by
  unfold Path.inner?
  by_cases hidle : x = [] ∨ x = ['.']
  · rcases hidle with rfl | rfl <;> rfl
  · by_cases hup : x = ['.', '.']
    · subst hup
      rfl
    · have hne := not_or.mp hidle
      simp [hup, hne.1, hne.2, stepOf?]

theorem filter_names (cs : List Char) :
    (names cs).filter (· ≠ ".") = (Path.pieces cs).filterMap fun x => (Path.inner? x).bind stepOf? := by
  rw [names]
  induction Path.pieces cs with
  | nil => rfl
  | cons x l ih =>
    rw [List.filterMap_cons, stepOf?_inner?]
    by_cases hnil : x = []
    · subst hnil
      exact ih
    · by_cases hdot : x = ['.']
      · subst hdot
        exact ih
      · have hne : String.ofList x ≠ "." := fun h => hdot (by simpa using congrArg String.toList h)
        simpa [hnil, hdot, hne] using ih

/-- Apart from `.`, the steps of a path are those that its components ask for. -/
theorem filter_steps (p : Path) :
    (steps p.text).filter (· ≠ ".") = p.components.filterMap stepOf? := by
  have hnames : (steps p.text).filter (· ≠ ".") = (names p.text.toList).filter (· ≠ ".") := by
    rw [steps_eq]
    split_ifs <;> simp
  rw [hnames, filter_names, Path.components]
  cases hp : Path.pieces p.text.toList with
  | nil => exact absurd hp (Path.pieces_ne_nil _)
  | cons first rest =>
    -- A root or a leading `.` asks for no step, and neither does the piece it stands for.
    have hstart : (if p.isAbsolute then [Path.Component.root]
        else if first == ['.'] then [Path.Component.current]
        else (Path.inner? first).toList).filterMap stepOf? =
          ((Path.inner? first).bind stepOf?).toList := by
      by_cases habs : p.isAbsolute
      · have hfirst := Path.first_piece_of_isAbsolute habs hp
        simp [habs, hfirst, Path.inner?, stepOf?]
      · by_cases hdot : first = ['.']
        · simp [habs, hdot, Path.inner?, stepOf?]
        · cases hinner : Path.inner? first with
          | none => simp [habs, hdot]
          | some c => cases hc : stepOf? c <;> simp [habs, hdot, hc]
    simp only [List.filterMap_append, hstart, List.filterMap_filterMap]
    rw [List.filterMap_cons]
    cases (Path.inner? first).bind stepOf? <;> rfl

/-- The location that a path starts from. -/
def start (d : Disk) (p : Path) : Location :=
  if p.isAbsolute then [] else d.here

variable {d : Disk} {p q : Path}

theorem arrive_eq_walk (hne : p.text ≠ "") (hsize : p.text.utf8ByteSize < pathLimit) :
    d.arrive through p = walk d.root through linkLimit (d.start p) (steps p.text) := by
  rw [arrive, if_neg (by simpa using hne), if_neg (Nat.not_le.mpr hsize)]
  rfl

theorem walk_of_arrive {a : Arrival} (h : d.arrive through p = .ok a) :
    p.text ≠ "" ∧ p.text.utf8ByteSize < pathLimit ∧
      walk d.root through linkLimit (d.start p) (steps p.text) = .ok a := by
  by_cases hne : p.text = ""
  · simp [arrive, hne] at h
  by_cases hsize : p.text.utf8ByteSize < pathLimit
  · rw [arrive_eq_walk hne hsize] at h
    exact ⟨hne, hsize, h⟩
  · rw [arrive, if_neg (by simpa using hne), if_pos (Nat.not_lt.mp hsize)] at h
    nomatch h

theorem locate_eq_ok_iff : d.locate p = .ok l ↔ d.arrive true p = .ok ⟨l, true⟩ := by
  unfold locate
  cases d.arrive true p with
  | error fault => simp [Except.bind]
  | ok a =>
    obtain ⟨location, present⟩ := a
    cases present <;> simp [Except.bind]

theorem leads_of_locate (h : d.locate p = .ok l) :
    ∃ k, Leads d.root linkLimit (d.start p) (steps p.text) k l :=
  exists_leads_of_walk (walk_of_arrive (locate_eq_ok_iff.mp h)).2.2

/-- **Spellings with the same components lead to the same location**, if they lead anywhere. -/
theorem locate_congr (hcomponents : p.components = q.components) (hp : d.locate p = .ok l)
    (hq : d.locate q = .ok m) : l = m := by
  obtain ⟨k, hk⟩ := leads_of_locate hp
  obtain ⟨k', hk'⟩ := leads_of_locate hq
  have hstart : d.start p = d.start q := by
    rw [start, start, Path.isAbsolute_congr hcomponents]
  have hp := hk.withoutDots
  have hq := hk'.withoutDots
  rw [filter_steps, hstart, hcomponents] at hp
  rw [filter_steps] at hq
  exact hp.unique hq

end Disk

end CodeNotes
