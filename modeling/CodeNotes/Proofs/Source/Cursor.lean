import CodeNotes.Source.Tree
import Mathlib.Data.List.Basic
import Mathlib.Logic.Function.Iterate

/-!
# Walking a tree with a cursor

A cursor stands at one node of a tree and knows three moves: to the first child, to the next sibling
and to the parent.  `Walk.turn` is one turn of a loop that looks for nodes with these moves alone.
Where the node satisfies the test it is noted and not entered; otherwise the cursor goes down if it
can.  Where it does not go down, it climbs until there is a next sibling and goes there, and the
loop is left when it cannot climb any more.

Everything that is still to be visited can be read off a cursor: the node it stands at, and the
later siblings of this node and of the nodes above it (`Cursor.todo`).  A move to the first child
replaces the node by its children there, and a move onward drops it (`todo_of_firstChild?`,
`todo_of_onward?`).  So each turn keeps what was found together with what will be found
(`Walk.sight_turn`), and leaves fewer nodes to visit (`Walk.sizeAll_turn`).  Hence the loop is left
after at most as many turns as the tree has nodes (`Walk.cursor?_iterate`), and has found what
`Tree.outermost` lists (`Walk.found_of_cursor?`).
-/

namespace CodeNotes.Tree

/-! ### Cursors -/

/-- A place in a tree. -/
structure Cursor where
  /-- The node at the place. -/
  node : Tree
  /-- The siblings after it. -/
  later : List Tree
  /-- The nodes above it, innermost first, each with the siblings after it. -/
  above : List (Tree × List Tree)

namespace Cursor

/-- The place of the root. -/
def root (t : Tree) : Cursor :=
  ⟨t, [], []⟩

/-- Moves to the first child, if there is one. -/
def firstChild? (c : Cursor) : Option Cursor :=
  match c.node.children with
  | [] => none
  | t :: ts => some ⟨t, ts, (c.node, c.later) :: c.above⟩

/-- Moves to the next sibling, if there is one. -/
def nextSibling? (c : Cursor) : Option Cursor :=
  match c.later with
  | [] => none
  | t :: ts => some ⟨t, ts, c.above⟩

/-- Moves to the parent, if there is one. -/
def parent? (c : Cursor) : Option Cursor :=
  match c.above with
  | [] => none
  | (t, ts) :: above => some ⟨t, ts, above⟩

theorem above_of_parent? {c up : Cursor} (h : c.parent? = some up) :
    c.above = (up.node, up.later) :: up.above := by
  rw [parent?] at h
  split at h
  · nomatch h
  · next habove =>
    obtain rfl := Option.some.inj h
    exact habove

/-- Climbs until there is a next sibling, and moves there. -/
def onward? (c : Cursor) : Option Cursor :=
  match c.nextSibling? with
  | some next => some next
  | none =>
    match _h : c.parent? with
    | some up => up.onward?
    | none => none
termination_by c.above.length
decreasing_by
  rw [above_of_parent? _h, List.length_cons]
  exact Nat.lt_succ_self _

/-- What follows the node of a cursor and all that lies in it, as far as it is known from above. -/
def rest (c : Cursor) : List Tree :=
  c.later ++ c.above.flatMap Prod.snd

/-- The trees that are still to be visited, in the order of their visits. -/
def todo (c : Cursor) : List Tree :=
  c.node :: c.rest

theorem todo_of_firstChild? {c child : Cursor} (h : c.firstChild? = some child) :
    child.todo = c.node.children ++ c.rest := by
  rw [firstChild?] at h
  split at h
  · nomatch h
  · next t ts hchildren =>
    obtain rfl := Option.some.inj h
    rw [hchildren]
    rfl

theorem children_of_firstChild? {c : Cursor} (h : c.firstChild? = none) :
    c.node.children = [] := by
  rw [firstChild?] at h
  split at h
  · assumption
  · nomatch h

theorem later_of_nextSibling? (c : Cursor) :
    c.later = (c.nextSibling?).elim [] fun next => next.node :: next.later := by
  unfold nextSibling?
  cases c.later <;> rfl

theorem above_of_nextSibling? {c next : Cursor} (h : c.nextSibling? = some next) :
    next.above = c.above := by
  rw [nextSibling?] at h
  split at h
  · nomatch h
  · obtain rfl := Option.some.inj h
    rfl

/-- **A move onward goes on with the rest**, and is impossible only where there is none. -/
theorem todo_of_onward? (c : Cursor) : (c.onward?).elim [] todo = c.rest := by
  fun_induction onward? c with
  | case1 c next hnext =>
    rw [rest, later_of_nextSibling?, hnext, ← above_of_nextSibling? hnext]
    rfl
  | case2 c hnext up hup ih =>
    rw [ih, rest, rest, later_of_nextSibling? c, hnext, above_of_parent? hup]
    rfl
  | case3 c hnext hup =>
    have habove : c.above = [] := by
      rw [parent?] at hup
      split at hup
      · assumption
      · nomatch hup
    rw [rest, later_of_nextSibling? c, hnext, habove]
    rfl

end Cursor

/-! ### Trees one after another -/

mutual

/-- The number of nodes of a tree. -/
def size : Tree → Nat
  | node _ _ _ children => sizeAll children + 1

/-- The number of nodes of several trees. -/
def sizeAll : List Tree → Nat
  | [] => 0
  | t :: ts => size t + sizeAll ts

end

theorem sizeAll_append (ts us : List Tree) : sizeAll (ts ++ us) = sizeAll ts + sizeAll us := by
  induction ts with
  | nil => rw [List.nil_append, sizeAll, Nat.zero_add]
  | cons t ts ih => rw [List.cons_append, sizeAll, sizeAll, ih, Nat.add_assoc]

theorem size_eq (t : Tree) : t.size = sizeAll t.children + 1 := by
  cases t
  rw [size, children]

theorem outermostAll_append (test : Tree → Bool) (ts us : List Tree) :
    outermostAll test (ts ++ us) = outermostAll test ts ++ outermostAll test us := by
  induction ts with
  | nil => rw [List.nil_append, outermostAll, List.nil_append]
  | cons t ts ih => rw [List.cons_append, outermostAll, outermostAll, ih, List.append_assoc]

theorem outermost_of_test {test : Tree → Bool} {t : Tree} (h : test t = true) :
    t.outermost test = [t] := by
  cases t
  rw [outermost, if_pos h]

theorem outermost_of_not_test {test : Tree → Bool} {t : Tree} (h : test t = false) :
    t.outermost test = outermostAll test t.children := by
  cases t
  rw [outermost, if_neg (by rw [h]; exact Bool.false_ne_true), children]

/-! ### The loop -/

/-- The state of a walk: the cursor, unless the loop has been left, and what was found so far. -/
structure Walk where
  cursor? : Option Cursor
  found : List Tree

namespace Walk

/-- A walk that has not started. -/
def start (t : Tree) : Walk :=
  ⟨some (.root t), []⟩

/-- One turn of the loop. -/
def turn (test : Tree → Bool) (w : Walk) : Walk :=
  match w.cursor? with
  | none => w
  | some c =>
    if test c.node then ⟨c.onward?, w.found ++ [c.node]⟩
    else
      match c.firstChild? with
      | some child => ⟨some child, w.found⟩
      | none => ⟨c.onward?, w.found⟩

/-- The trees that are still to be visited. -/
def todo (w : Walk) : List Tree :=
  w.cursor?.elim [] Cursor.todo

/-- What was found and what will be. -/
def sight (test : Tree → Bool) (w : Walk) : List Tree :=
  w.found ++ outermostAll test w.todo

/-- **What a turn does.**  It takes up the first of the trees to be visited: it notes the tree or
puts its children in its place. -/
theorem turn_cases (test : Tree → Bool) {w : Walk} {c : Cursor} (h : w.cursor? = some c) :
    (test c.node = true ∧ (w.turn test).found = w.found ++ [c.node] ∧
      (w.turn test).todo = c.rest) ∨
    (test c.node = false ∧ (w.turn test).found = w.found ∧
      (w.turn test).todo = c.node.children ++ c.rest) := by
  cases htest : test c.node with
  | true =>
    have hturn : w.turn test = ⟨c.onward?, w.found ++ [c.node]⟩ := by
      simp only [turn, h, htest, ite_true]
    rw [hturn]
    exact .inl ⟨rfl, rfl, c.todo_of_onward?⟩
  | false =>
    right
    cases hchild : c.firstChild? with
    | some child =>
      have hturn : w.turn test = ⟨some child, w.found⟩ := by
        simp only [turn, h, htest, hchild, Bool.false_eq_true, ite_false]
      rw [hturn]
      exact ⟨rfl, rfl, Cursor.todo_of_firstChild? hchild⟩
    | none =>
      have hturn : w.turn test = ⟨c.onward?, w.found⟩ := by
        simp only [turn, h, htest, hchild, Bool.false_eq_true, ite_false]
      rw [hturn, Cursor.children_of_firstChild? hchild]
      exact ⟨rfl, rfl, c.todo_of_onward?⟩

theorem todo_of_cursor? {w : Walk} {c : Cursor} (h : w.cursor? = some c) :
    w.todo = c.node :: c.rest := by
  rw [todo, h]
  rfl

/-- A turn does not change what is found in all. -/
theorem sight_turn (test : Tree → Bool) (w : Walk) : (w.turn test).sight test = w.sight test := by
  cases hcursor : w.cursor? with
  | none => rw [turn, hcursor]
  | some c =>
    rw [sight, sight, todo_of_cursor? hcursor, outermostAll]
    rcases turn_cases test hcursor with ⟨htest, hfound, htodo⟩ | ⟨htest, hfound, htodo⟩
    · rw [hfound, htodo, outermost_of_test htest, List.append_assoc]
    · rw [hfound, htodo, outermost_of_not_test htest, outermostAll_append]

/-- A turn leaves fewer nodes to visit. -/
theorem sizeAll_turn (test : Tree → Bool) (w : Walk) :
    sizeAll (w.turn test).todo ≤ sizeAll w.todo - 1 := by
  cases hcursor : w.cursor? with
  | none =>
    rw [turn, hcursor, todo, hcursor]
    exact Nat.le_refl 0
  | some c =>
    have hsize := c.node.size_eq
    rw [todo_of_cursor? hcursor, sizeAll]
    rcases turn_cases test hcursor with ⟨-, -, htodo⟩ | ⟨-, -, htodo⟩
    · rw [htodo]
      omega
    · rw [htodo, sizeAll_append]
      omega

theorem sight_iterate (test : Tree → Bool) (w : Walk) (n : Nat) :
    ((turn test)^[n] w).sight test = w.sight test := by
  induction n with
  | zero => rfl
  | succ n ih => rw [Function.iterate_succ_apply', sight_turn, ih]

theorem sizeAll_iterate (test : Tree → Bool) (w : Walk) (n : Nat) :
    sizeAll ((turn test)^[n] w).todo ≤ sizeAll w.todo - n := by
  induction n with
  | zero => exact Nat.le_refl _
  | succ n ih =>
    have hturn := sizeAll_turn test ((turn test)^[n] w)
    rw [Function.iterate_succ_apply']
    omega

/-- The loop has been left once nothing is left to visit. -/
theorem cursor?_of_todo {w : Walk} (h : sizeAll w.todo = 0) : w.cursor? = none := by
  cases hcursor : w.cursor? with
  | none => rfl
  | some c =>
    have hsize := c.node.size_eq
    rw [todo_of_cursor? hcursor, sizeAll] at h
    omega

/-- What has been found when the loop has been left. -/
theorem found_of_cursor? {test : Tree → Bool} {t : Tree} {n : Nat}
    (h : ((turn test)^[n] (start t)).cursor? = none) :
    ((turn test)^[n] (start t)).found = t.outermost test := by
  have hsight := sight_iterate test (start t) n
  rw [sight, todo, h] at hsight
  rw [sight, todo_of_cursor? rfl] at hsight
  simpa [outermostAll, start, Cursor.root, Cursor.rest] using hsight

/-- **The loop ends**: after as many turns as the tree has nodes it has been left. -/
theorem cursor?_iterate (test : Tree → Bool) (t : Tree) {n : Nat} (hn : t.size ≤ n) :
    ((turn test)^[n] (start t)).cursor? = none := by
  have hsize := sizeAll_iterate test (start t) n
  have hstart : sizeAll (start t).todo = t.size := by
    rw [todo_of_cursor? rfl]
    simp [sizeAll, Cursor.root, Cursor.rest]
  apply cursor?_of_todo
  omega

end Walk

end CodeNotes.Tree
