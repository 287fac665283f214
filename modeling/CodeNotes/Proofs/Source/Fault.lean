import CodeNotes.Proofs.Source.Outermost
import CodeNotes.Source.Parse

/-!
# The first fault of a tree

`Tree.preorder` lists all nodes of a tree, each before what lies in it.  The first faulty node of
this list is what `Tree.firstFault?` gives, though it does not enter a subtree without fault
(`firstFault?_eq_find?`).

`Search.turn` is one turn of a loop that looks for this node with a cursor.  The loop is left at a
faulty node.  Another node is entered only if it is flagged as holding a fault, and the cursor moves
onward from it otherwise.  What lies ahead of a search is the end of the list of all nodes
(`Search.ahead_turn`), and it gets shorter with each turn (`Search.length_ahead_turn`), so the loop
is left.  If the flags are right, what is passed over holds no fault, so each turn keeps the first
faulty node that lies ahead (`Search.outcome_turn`).

Hence a tree is refused exactly when it holds a faulty node, and the place that is reported is the
one where the first faulty node starts (`Source.commentsOfTree_eq_error_iff`).
-/

namespace CodeNotes.Tree

/-! ### All nodes of a tree -/

mutual

/-- All nodes of a tree, each before what lies in it. -/
def preorder : Tree → List Tree
  | t@(node _ _ _ children) => t :: preorderAll children

/-- All nodes of several trees, tree by tree. -/
def preorderAll : List Tree → List Tree
  | [] => []
  | t :: ts => preorder t ++ preorderAll ts

end

theorem preorder_eq (t : Tree) : t.preorder = t :: preorderAll t.children := by
  cases t
  rw [preorder, children]

theorem preorderAll_append (ts us : List Tree) :
    preorderAll (ts ++ us) = preorderAll ts ++ preorderAll us := by
  induction ts with
  | nil => rw [List.nil_append, preorderAll, List.nil_append]
  | cons t ts ih => rw [List.cons_append, preorderAll, preorderAll, ih, List.append_assoc]

theorem isFaulty_node (kind : String) (span : Span) (condition : Condition)
    (children : List Tree) :
    (Tree.node kind span condition children).isFaulty = (condition != .sound) := rfl

/-! ### Whether there is a fault -/

theorem hasFault_eq (t : Tree) : t.hasFault = (t.isFaulty || anyFault t.children) := by
  cases t
  rw [hasFault, isFaulty_node, children]

theorem anyFault_eq_any {ts : List Tree}
    (hts : ∀ t ∈ ts, t.hasFault = t.preorder.any isFaulty) :
    anyFault ts = (preorderAll ts).any isFaulty := by
  induction ts with
  | nil => rw [anyFault, preorderAll, List.any_nil]
  | cons t ts ih =>
    rw [List.forall_mem_cons] at hts
    rw [anyFault, preorderAll, List.any_append, hts.1, ih hts.2]

/-- A tree has a fault if one of its nodes is faulty. -/
theorem hasFault_eq_any (t : Tree) : t.hasFault = t.preorder.any isFaulty := by
  induction t using induction_children with
  | h t ih => rw [hasFault_eq, anyFault_eq_any ih, preorder_eq, List.any_cons]

theorem hasFault_iff (t : Tree) : t.hasFault = true ↔ ∃ u ∈ t.preorder, u.isFaulty = true := by
  rw [hasFault_eq_any, List.any_eq_true]

theorem anyFault_eq_any_preorderAll (ts : List Tree) :
    anyFault ts = (preorderAll ts).any isFaulty :=
  anyFault_eq_any fun t _ => t.hasFault_eq_any

/-! ### The first faulty node -/

theorem firstFault?_of_isFaulty {t : Tree} (h : t.isFaulty = true) : t.firstFault? = some t := by
  cases t
  rw [isFaulty_node] at h
  rw [firstFault?, if_pos h]

theorem firstFault?_of_not_isFaulty {t : Tree} (h : t.isFaulty = false) :
    t.firstFault? = if anyFault t.children then firstFaultOf? t.children else none := by
  cases t
  rw [isFaulty_node] at h
  rw [firstFault?, h, if_neg Bool.false_ne_true, children]

theorem firstFaultOf?_eq_find? {ts : List Tree}
    (hts : ∀ t ∈ ts, t.firstFault? = t.preorder.find? isFaulty) :
    firstFaultOf? ts = (preorderAll ts).find? isFaulty := by
  induction ts with
  | nil => rw [firstFaultOf?, preorderAll, List.find?_nil]
  | cons t ts ih =>
    rw [List.forall_mem_cons] at hts
    rw [firstFaultOf?, preorderAll, List.find?_append, hts.1, ih hts.2]
    cases t.preorder.find? isFaulty <;> rfl

/-- **The search that enters no subtree without fault** finds the first faulty node of all. -/
theorem firstFault?_eq_find? (t : Tree) : t.firstFault? = t.preorder.find? isFaulty := by
  induction t using induction_children with
  | h t ih =>
    rw [preorder_eq, List.find?_cons]
    cases hfaulty : t.isFaulty with
    | true => exact firstFault?_of_isFaulty hfaulty
    | false =>
      rw [firstFault?_of_not_isFaulty hfaulty, firstFaultOf?_eq_find? ih,
        anyFault_eq_any_preorderAll]
      split
      · rfl
      · next hnone =>
        symm
        rw [List.find?_eq_none]
        intro u hu hfault
        exact hnone (List.any_eq_true.mpr ⟨u, hu, hfault⟩)

/-! ### Where the first node stands -/

section Address

variable {test : Tree → Bool}

theorem find?_preorderAll {ts : List Tree}
    (hts : ∀ t ∈ ts, t.preorder.find? test = (t.outermost test).head?) :
    (preorderAll ts).find? test = (outermostAll test ts).head? := by
  induction ts with
  | nil => rw [preorderAll, outermostAll, List.find?_nil, List.head?_nil]
  | cons t ts ih =>
    rw [List.forall_mem_cons] at hts
    rw [preorderAll, outermostAll, List.find?_append, List.head?_append, hts.1, ih hts.2]

/-- The first node that satisfies a test lies in no other such node. -/
theorem find?_preorder (t : Tree) : t.preorder.find? test = (t.outermost test).head? := by
  induction t using induction_children with
  | h t ih =>
    rw [preorder_eq, List.find?_cons]
    cases htest : test t with
    | true => rw [outermost_of_test htest, List.head?_cons]
    | false =>
      rw [outermost_of_not_test htest]
      exact find?_preorderAll ih

/-- A node that satisfies a test is an outermost one or lies in one. -/
theorem exists_isOutermost_prefix {t u : Tree} {a : List Nat} (hu : t.at? a = some u)
    (htest : test u = true) : ∃ p, p <+: a ∧ IsOutermost test t p := by
  induction a generalizing t with
  | nil =>
    have hroot : test t = true := by rwa [Option.some.inj hu]
    exact ⟨[], List.prefix_rfl, (isOutermost_of_test hroot).mpr rfl⟩
  | cons i a ih =>
    cases hroot : test t with
    | true => exact ⟨[], List.nil_prefix, (isOutermost_of_test hroot).mpr rfl⟩
    | false =>
      obtain ⟨child, hchild, hu⟩ := Option.bind_eq_some_iff.mp hu
      obtain ⟨p, hp, houter⟩ := ih hu
      have hcons : IsOutermost test t (i :: p) :=
        (isOutermost_of_not_test hroot).mpr ⟨i, p, child, rfl, hchild, houter⟩
      exact ⟨i :: p, List.cons_prefix_cons.mpr ⟨rfl, hp⟩, hcons⟩

/-- **The first node that satisfies a test has the least address** of all such nodes. -/
theorem exists_least_address {t u : Tree} (h : t.preorder.find? test = some u) :
    ∃ a, t.at? a = some u ∧ ∀ b v, t.at? b = some v → test v = true → ¬ b < a := by
  rw [find?_preorder] at h
  have hplaces : (t.places test).head?.map t.at? = some (some u) := by
    rw [← List.head?_map, map_at?_places, List.head?_map, h, Option.map_some]
  obtain ⟨a, ha, hu⟩ := Option.map_eq_some_iff.mp hplaces
  obtain ⟨rest, hrest⟩ := List.head?_eq_some_iff.mp ha
  have hleast : ∀ p ∈ t.places test, ¬ p < a := by
    have hordered : (t.places test).Pairwise (· < ·) := t.pairwise_places
    rw [hrest, List.pairwise_cons] at hordered
    rw [hrest, List.forall_mem_cons]
    exact ⟨List.lt_irrefl a, fun p hp => List.lt_asymm (hordered.1 p hp)⟩
  refine ⟨a, hu, fun b v hv htest hba => ?_⟩
  -- The node lies in an outermost one, whose address is not behind it and not before the first.
  obtain ⟨p, hp, houter⟩ := exists_isOutermost_prefix hv htest
  have hpa : p < a := List.lt_of_le_of_lt hp.le hba
  exact hleast p ((t.mem_places_iff p).mpr houter) hpa

end Address

/-! ### The loop -/

/-- The state of a search: under way, with the place that is looked at next, or left with what was
found. -/
inductive Search where
  | looking (cursor : Cursor)
  | left (found? : Option Tree)

namespace Search

/-- A search that has not started. -/
def start (t : Tree) : Search :=
  looking (.root t)

/-- A search goes on where the cursor could be moved to, and is left empty-handed if it could not be
moved. -/
def goOn : Option Cursor → Search
  | some c => looking c
  | none => left none

/-- One turn of the loop. -/
def turn (flagged : Tree → Bool) : Search → Search
  | left found? => left found?
  | looking c =>
    if c.node.isFaulty then left (some c.node)
    else
      match (if flagged c.node then c.firstChild? else none) with
      | some child => looking child
      | none => goOn c.onward?

/-- The nodes that lie ahead, in order, if each of them is looked at. -/
def ahead : Search → List Tree
  | looking c => preorderAll c.todo
  | left _ => []

/-- What is found in the end if each node ahead is looked at. -/
def outcome : Search → Option Tree
  | looking c => (preorderAll c.todo).find? isFaulty
  | left found? => found?

/-- The flags tell of each of these nodes whether a faulty node is in it. -/
def RightFlags (flagged : Tree → Bool) (nodes : List Tree) : Prop :=
  ∀ u ∈ nodes, flagged u = true ↔ ∃ v ∈ u.preorder, v.isFaulty = true

/-- The flag of the root tells whether the tree has a fault. -/
theorem RightFlags.hasFault_eq {flagged : Tree → Bool} {t : Tree}
    (h : RightFlags flagged t.preorder) : t.hasFault = flagged t := by
  have htree : t ∈ t.preorder := t.preorder_eq ▸ List.mem_cons_self
  rw [Bool.eq_iff_iff, t.hasFault_iff]
  exact (h t htree).symm

theorem ahead_looking (c : Cursor) :
    (looking c).ahead = c.node :: (preorderAll c.node.children ++ preorderAll c.rest) := by
  rw [ahead, Cursor.todo, preorderAll, preorder_eq, List.cons_append]

theorem ahead_goOn (next? : Option Cursor) :
    (goOn next?).ahead = preorderAll (next?.elim [] Cursor.todo) := by
  cases next? with
  | none =>
    show [] = preorderAll []
    rw [preorderAll]
  | some c => rfl

theorem outcome_goOn (next? : Option Cursor) :
    (goOn next?).outcome = (goOn next?).ahead.find? isFaulty := by
  cases next? <;> rfl

/-- **What a turn does at a node that is not faulty.**  It goes on behind the node, or with its
children if the node is flagged. -/
theorem exists_goOn_of_turn (flagged : Tree → Bool) {c : Cursor} (h : c.node.isFaulty = false) :
    ∃ next?, turn flagged (looking c) = goOn next? ∧
      (goOn next?).ahead =
        (if flagged c.node then preorderAll c.node.children else []) ++ preorderAll c.rest := by
  have honward : (goOn c.onward?).ahead = preorderAll c.rest := by
    rw [ahead_goOn, Cursor.todo_of_onward?]
  rw [turn, h, if_neg Bool.false_ne_true]
  cases hflag : flagged c.node with
  | false => exact ⟨c.onward?, rfl, honward⟩
  | true =>
    rw [if_pos rfl, if_pos rfl]
    cases hchild : c.firstChild? with
    | none =>
      -- A node without children is flagged and yet not entered.
      refine ⟨c.onward?, rfl, ?_⟩
      rw [honward, Cursor.children_of_firstChild? hchild, preorderAll, List.nil_append]
    | some child =>
      refine ⟨some child, rfl, ?_⟩
      rw [ahead_goOn, Option.elim_some, Cursor.todo_of_firstChild? hchild, preorderAll_append]

/-! ### One turn -/

/-- What lies ahead after a turn is the end of what lay ahead before it. -/
theorem ahead_turn (flagged : Tree → Bool) (s : Search) : (s.turn flagged).ahead <:+ s.ahead := by
  cases s with
  | left found? => exact List.suffix_rfl
  | looking c =>
    cases hfaulty : c.node.isFaulty with
    | true =>
      rw [turn, hfaulty, if_pos rfl]
      exact List.nil_suffix
    | false =>
      obtain ⟨next?, hturn, hahead⟩ := exists_goOn_of_turn flagged hfaulty
      rw [hturn, hahead, ahead_looking]
      apply List.IsSuffix.trans _ (List.suffix_cons _ _)
      split
      · exact List.suffix_rfl
      · exact List.suffix_append _ _

/-- A turn leaves fewer nodes ahead. -/
theorem length_ahead_turn (flagged : Tree → Bool) (s : Search) :
    (s.turn flagged).ahead.length ≤ s.ahead.length - 1 := by
  cases s with
  | left found? => exact Nat.zero_le _
  | looking c =>
    cases hfaulty : c.node.isFaulty with
    | true =>
      rw [turn, hfaulty, if_pos rfl]
      exact Nat.zero_le _
    | false =>
      obtain ⟨next?, hturn, hahead⟩ := exists_goOn_of_turn flagged hfaulty
      rw [hturn, hahead, ahead_looking, List.length_cons, List.length_append, List.length_append]
      split
      · omega
      · rw [List.length_nil]
        omega

/-- **A turn keeps what is found**, if the flags of the nodes ahead are right. -/
theorem outcome_turn {flagged : Tree → Bool} {s : Search} (h : RightFlags flagged s.ahead) :
    (s.turn flagged).outcome = s.outcome := by
  cases s with
  | left found? => rfl
  | looking c =>
    have houtcome : (looking c).outcome = (looking c).ahead.find? isFaulty := rfl
    rw [houtcome, ahead_looking, List.find?_cons]
    cases hfaulty : c.node.isFaulty with
    | true =>
      rw [turn, hfaulty, if_pos rfl]
      rfl
    | false =>
      obtain ⟨next?, hturn, hahead⟩ := exists_goOn_of_turn flagged hfaulty
      rw [hturn, outcome_goOn, hahead]
      cases hflag : flagged c.node with
      | true => rfl
      | false =>
        -- The children that are passed over hold no fault.
        have hnode : c.node ∈ (looking c).ahead := by
          rw [ahead_looking]
          exact List.mem_cons_self
        have hsound : ∀ u ∈ preorderAll c.node.children, ¬ u.isFaulty = true := by
          intro u hu hfault
          have hin : u ∈ c.node.preorder := by
            rw [preorder_eq]
            exact List.mem_cons_of_mem _ hu
          have hraised := (h c.node hnode).mpr ⟨u, hin, hfault⟩
          rw [hflag] at hraised
          exact Bool.false_ne_true hraised
        rw [if_neg Bool.false_ne_true, List.nil_append, List.find?_append,
          List.find?_eq_none.mpr hsound, Option.none_or]

/-! ### The whole search -/

section Run

variable {flagged : Tree → Bool} {t : Tree} {n : Nat}

theorem ahead_start (t : Tree) : (start t).ahead = t.preorder := by
  show preorderAll [t] = t.preorder
  rw [preorderAll, preorderAll, List.append_nil]

theorem ahead_iterate (flagged : Tree → Bool) (t : Tree) (n : Nat) :
    ((turn flagged)^[n] (start t)).ahead <:+ t.preorder := by
  induction n with
  | zero =>
    have hstart : ((turn flagged)^[0] (start t)).ahead = t.preorder := ahead_start t
    exact hstart ▸ List.suffix_rfl
  | succ n ih =>
    rw [Function.iterate_succ_apply']
    exact (ahead_turn flagged _).trans ih

theorem length_ahead_iterate (flagged : Tree → Bool) (t : Tree) (n : Nat) :
    ((turn flagged)^[n] (start t)).ahead.length ≤ t.preorder.length - n := by
  induction n with
  | zero =>
    rw [Function.iterate_zero_apply, ahead_start]
    omega
  | succ n ih =>
    have hturn := length_ahead_turn flagged ((turn flagged)^[n] (start t))
    rw [Function.iterate_succ_apply']
    omega

theorem outcome_iterate (h : RightFlags flagged t.preorder) (n : Nat) :
    ((turn flagged)^[n] (start t)).outcome = t.preorder.find? isFaulty := by
  induction n with
  | zero =>
    rw [Function.iterate_zero_apply, ← ahead_start]
    rfl
  | succ n ih =>
    have hright : RightFlags flagged ((turn flagged)^[n] (start t)).ahead :=
      fun u hu => h u ((ahead_iterate flagged t n).subset hu)
    rw [Function.iterate_succ_apply', outcome_turn hright, ih]

/-- **The search ends**: after as many turns as the tree has nodes it has been left. -/
theorem exists_left (flagged : Tree → Bool) (hn : t.preorder.length ≤ n) :
    ∃ found?, (turn flagged)^[n] (start t) = left found? := by
  have hlength := length_ahead_iterate flagged t n
  cases hs : (turn flagged)^[n] (start t) with
  | left found? => exact ⟨found?, rfl⟩
  | looking c =>
    rw [hs, ahead_looking, List.length_cons] at hlength
    omega

/-- **The search finds the first faulty node**, if the flags are right. -/
theorem found?_eq_find? (h : RightFlags flagged t.preorder) {found? : Option Tree}
    (hleft : (turn flagged)^[n] (start t) = left found?) :
    found? = t.preorder.find? isFaulty := by
  have houtcome := outcome_iterate h n
  rwa [hleft] at houtcome

end Run

end Search

end CodeNotes.Tree

namespace CodeNotes.Source

/-! ### Trees that are refused -/

section Refused

variable (language : Language) (text : List Char) {tree : Tree}

theorem isSome_find?_iff :
    (tree.preorder.find? Tree.isFaulty).isSome = true ↔ tree.hasFault = true := by
  rw [List.find?_isSome, tree.hasFault_iff]

/-- A tree with a faulty node is refused for the first one. -/
theorem commentsOfTree_of_find? {u : Tree} (h : tree.preorder.find? Tree.isFaulty = some u) :
    commentsOfTree language text tree = .error ⟨u.span.startPosition text⟩ := by
  have hfault : tree.hasFault = true := isSome_find?_iff.mp (Option.isSome_of_eq_some h)
  rw [commentsOfTree, hfault, if_pos rfl, tree.firstFault?_eq_find?, h, Option.getD_some]

/-- **A tree is refused exactly for its first faulty node.** -/
theorem commentsOfTree_eq_error_iff (fault : Fault) :
    commentsOfTree language text tree = .error fault ↔
      ∃ u, tree.preorder.find? Tree.isFaulty = some u ∧
        fault = ⟨u.span.startPosition text⟩ := by
  constructor
  · intro hrefused
    have hfault : tree.hasFault = true := by
      by_contra hsound
      rw [commentsOfTree, if_neg hsound] at hrefused
      nomatch hrefused
    obtain ⟨u, hu⟩ := Option.isSome_iff_exists.mp (isSome_find?_iff.mpr hfault)
    rw [commentsOfTree_of_find? language text hu] at hrefused
    exact ⟨u, hu, (Except.error.inj hrefused).symm⟩
  · rintro ⟨u, hu, rfl⟩
    exact commentsOfTree_of_find? language text hu

/-- A tree is refused exactly if one of its nodes is faulty. -/
theorem exists_commentsOfTree_eq_error_iff :
    (∃ fault, commentsOfTree language text tree = .error fault) ↔
      ∃ u ∈ tree.preorder, u.isFaulty = true := by
  rw [← tree.hasFault_iff, ← isSome_find?_iff, Option.isSome_iff_exists]
  constructor
  · rintro ⟨fault, hrefused⟩
    obtain ⟨u, hu, -⟩ := (commentsOfTree_eq_error_iff language text fault).mp hrefused
    exact ⟨u, hu⟩
  · rintro ⟨u, hu⟩
    exact ⟨_, commentsOfTree_of_find? language text hu⟩

end Refused

/-- **The first fault is found and reported.**  Let each node of a tree be flagged if it or a node
in it is faulty.  Then the search that enters flagged nodes only is left, after as many turns as the
tree has nodes at the latest, with the first faulty node of all nodes in order, and empty-handed
only if there is none.  No faulty node has an address before that of this node.

A tree is refused exactly if one of its nodes is faulty.  Then the search has found a node, so there
is no need to fall back on the root, and the line and the column that are reported are those where
this node starts, counted from one.  A text is refused if its tree is. -/
theorem first_fault_reported (language : Language) (text : List Char) (tree : Tree)
    (flagged : Tree → Bool)
    (hflagged : ∀ u ∈ tree.preorder,
      flagged u = true ↔ ∃ v ∈ u.preorder, v.isFaulty = true) :
    let first? := tree.preorder.find? Tree.isFaulty
    let search := fun n => (Tree.Search.turn flagged)^[n] (Tree.Search.start tree)
    (∀ n, tree.preorder.length ≤ n → ∃ found?, search n = .left found?) ∧
    (∀ n found?, search n = .left found? → found? = first?) ∧
    (first? = none ↔ ∀ u ∈ tree.preorder, u.isFaulty = false) ∧
    (∀ u, first? = some u → ∃ a, tree.at? a = some u ∧
      ∀ b v, tree.at? b = some v → v.isFaulty = true → ¬ b < a) ∧
    (tree.hasFault = flagged tree ∧ tree.firstFault? = first? ∧
      (flagged tree = true → first?.isSome = true)) ∧
    ((∃ fault, commentsOfTree language text tree = .error fault) ↔
      ∃ u ∈ tree.preorder, u.isFaulty = true) ∧
    (∀ u, first? = some u →
      let start := u.span.startPosition text
      commentsOfTree language text tree = .error ⟨start⟩ ∧
      (Fault.mk start).message = "Syntax error at line " ++ (start.row + 1).repr ++
        ", column " ++ (start.column + 1).repr) ∧
    ∀ source : String, parse language source.toList = tree → ∀ fault,
      comments language source = .error fault ↔
        ∃ u, first? = some u ∧ fault = ⟨u.span.startPosition source.toList⟩ := by
  intro first? search
  have hroot : tree.hasFault = flagged tree := Tree.Search.RightFlags.hasFault_eq hflagged
  refine ⟨fun n => Tree.Search.exists_left flagged, fun n found? => ?_, ?_, fun u => ?_,
    ⟨hroot, tree.firstFault?_eq_find?, ?_⟩, ?_, fun u hu => ?_, ?_⟩
  · exact Tree.Search.found?_eq_find? hflagged
  · simp only [first?, List.find?_eq_none, Bool.not_eq_true]
  · exact Tree.exists_least_address
  · rw [← hroot]
    exact isSome_find?_iff.mpr
  · exact exists_commentsOfTree_eq_error_iff language text
  · exact ⟨commentsOfTree_of_find? language text hu, rfl⟩
  · rintro source rfl fault
    exact commentsOfTree_eq_error_iff language source.toList fault

/-- A call whose closing bracket is missing, with an error behind it: the search passes by the
statement before it, and the missing bracket is reported on the second line. -/
theorem first_fault_reported_in_call :
    let bracket : Tree := .node ")" ⟨7, 7⟩ .missing []
    let tree : Tree := .node "program" ⟨0, 9⟩ .sound
      [.node "statement" ⟨0, 2⟩ .sound [.node "identifier" ⟨0, 1⟩ .sound []],
        .node "call" ⟨3, 7⟩ .sound
          [.node "identifier" ⟨3, 4⟩ .sound [],
            .node "arguments" ⟨4, 7⟩ .sound [.node "(" ⟨4, 5⟩ .sound [], bracket]],
        .node "ERROR" ⟨8, 9⟩ .error []]
    (∀ u ∈ tree.preorder, u.hasFault = true ↔ ∃ v ∈ u.preorder, v.isFaulty = true) ∧
    (Tree.Search.turn Tree.hasFault)^[9] (Tree.Search.start tree) = .left (some bracket) ∧
    commentsOfTree .javaScript "a;\nf(bc ]".toList tree = .error ⟨⟨1, 4⟩⟩ := by
  intro bracket tree
  have hflags : ∀ u ∈ tree.preorder, u.hasFault = true ↔ ∃ v ∈ u.preorder, v.isFaulty = true :=
    fun u _ => u.hasFault_iff
  have hfirst : tree.preorder.find? Tree.isFaulty = some bracket := rfl
  obtain ⟨hleft, hfound, -, -, -, -, hreported, -⟩ :=
    first_fault_reported .javaScript "a;\nf(bc ]".toList tree Tree.hasFault hflags
  obtain ⟨found?, hsearch⟩ := hleft 9 (by decide)
  obtain rfl := (hfound 9 found? hsearch).trans hfirst
  exact ⟨hflags, hsearch, (hreported bracket hfirst).1⟩

end CodeNotes.Source
