import CodeNotes.Proofs.Note.Order

/-!
# The outline is linear and fixes the sorted list

Two lists of components, of whatever lengths, are compared lexicographically, a strict prefix first
(`compareComponents_eq_lt_iff`), and this is a linear order.  It can be had from a plain walk along
the components of the first list, which only looks whether the second one goes on (`walk`): the walk
says nothing where the first list is a prefix of the second, and there the lengths decide
(`compareComponents_eq_walk_then`).

Since different ids never compare equal, a list of notes has only one arrangement that is in order
and keeps notes of one id as they were (`IsOutline`), and sorting finds it.
-/

namespace CodeNotes

namespace NoteId

/-! ### The walk along the first list -/

/-- Walks along the components of the first list from left to right.  It ends at the first component
that differs, or that the second list lacks; one that meets neither says nothing. -/
def walk : List UInt64 → List UInt64 → Ordering
  | [], _ => .eq
  | _ :: _, [] => .gt
  | x :: a, y :: b => if y < x then .gt else if x < y then .lt else walk a b

theorem walk_cons_self (x : UInt64) (a b : List UInt64) : walk (x :: a) (x :: b) = walk a b := by
  rw [walk, if_neg (UInt64.lt_irrefl x), if_neg (UInt64.lt_irrefl x)]

theorem compareComponents_cons_self (x : UInt64) (a b : List UInt64) :
    compareComponents (x :: a) (x :: b) = compareComponents a b := by
  have hx : compare x x = .eq := Std.ReflOrd.compare_self
  rw [compareComponents, hx]

theorem compareComponents_cons_of_lt {x y : UInt64} (h : x < y) (a b : List UInt64) :
    compareComponents (x :: a) (y :: b) = .lt := by
  have hxy : compare x y = .lt := Std.compare_eq_lt.mpr h
  rw [compareComponents, hxy]

theorem compareComponents_cons_of_gt {x y : UInt64} (h : y < x) (a b : List UInt64) :
    compareComponents (x :: a) (y :: b) = .gt := by
  have hxy : compare x y = .gt := Std.compare_eq_gt.mpr h
  rw [compareComponents, hxy]

/-- The walk decides; where it says nothing, a list that is shorter comes first. -/
theorem compareComponents_eq_walk_then (a b : List UInt64) :
    compareComponents a b = (walk a b).then (if a.length < b.length then .lt else .eq) := by
  induction a generalizing b with
  | nil => cases b <;> rfl
  | cons x a ih =>
    cases b with
    | nil => rfl
    | cons y b =>
      rcases Std.lt_trichotomy x y with hlt | rfl | hgt
      · rw [compareComponents_cons_of_lt hlt, walk, if_neg (UInt64.lt_asymm hlt), if_pos hlt]
        rfl
      · rw [compareComponents_cons_self, walk_cons_self, ih]
        simp only [List.length_cons, Nat.add_lt_add_iff_right]
      · rw [compareComponents_cons_of_gt hgt, walk, if_pos hgt]
        rfl

/-- The walk says nothing exactly along a prefix. -/
theorem walk_eq_eq_iff (a b : List UInt64) : walk a b = .eq ↔ a <+: b := by
  induction a generalizing b with
  | nil => exact ⟨fun _ => List.nil_prefix, fun _ => rfl⟩
  | cons x a ih =>
    cases b with
    | nil => simp [walk]
    | cons y b =>
      rw [List.cons_prefix_cons]
      rcases Std.lt_trichotomy x y with hlt | rfl | hgt
      · simp [walk, UInt64.lt_asymm hlt, hlt, UInt64.ne_of_lt hlt]
      · rw [walk_cons_self, ih]
        exact ⟨fun h => ⟨rfl, h⟩, fun h => h.2⟩
      · simp [walk, hgt, (UInt64.ne_of_lt hgt).symm]

/-! ### The lexicographic order -/

/-- Components are compared lexicographically: a strict prefix comes first, and else the first
difference decides. -/
theorem compareComponents_eq_lt_iff (a b : List UInt64) :
    compareComponents a b = .lt ↔ List.Lex (· < ·) a b := by
  induction a generalizing b with
  | nil =>
    cases b with
    | nil => simp [compareComponents]
    | cons y b => simp [compareComponents]
  | cons x a ih =>
    cases b with
    | nil => simp [compareComponents]
    | cons y b =>
      rw [List.cons_lex_cons_iff]
      rcases Std.lt_trichotomy x y with hlt | rfl | hgt
      · simp [compareComponents_cons_of_lt hlt, hlt]
      · rw [compareComponents_cons_self, ih]
        exact ⟨fun h => .inr ⟨rfl, h⟩, fun h => h.elim (absurd · (UInt64.lt_irrefl x)) And.right⟩
      · simp [compareComponents_cons_of_gt hgt, UInt64.lt_asymm hgt, (UInt64.ne_of_lt hgt).symm]

theorem compareComponents_swap (a b : List UInt64) :
    compareComponents b a = (compareComponents a b).swap := by
  rw [compareComponents_eq_compare, compareComponents_eq_compare]
  exact Std.OrientedOrd.eq_swap

theorem compareComponents_eq_eq_iff (a b : List UInt64) : compareComponents a b = .eq ↔ a = b := by
  rw [compareComponents_eq_compare]
  exact Std.LawfulEqOrd.compare_eq_iff_eq

theorem compareComponents_lt_trans {a b c : List UInt64} (hab : compareComponents a b = .lt)
    (hbc : compareComponents b c = .lt) : compareComponents a c = .lt := by
  rw [compareComponents_eq_compare] at hab hbc ⊢
  exact Std.TransCmp.lt_trans hab hbc

/-- **Ids are compared by a linear order that refines the walk.**  It is the lexicographic order of
the components, it tells different ids apart, and wherever the walk decides, it agrees. -/
theorem compareComponents_linear (a b c : List UInt64) (i j : NoteId) :
    compareComponents b a = (compareComponents a b).swap ∧
    (compareComponents a b = .eq ↔ a = b) ∧
    (compare i j = .eq ↔ i = j) ∧
    (compareComponents a b = .lt → compareComponents b c = .lt → compareComponents a c = .lt) ∧
    (compareComponents a b = .lt ↔ List.Lex (· < ·) a b) ∧
    (walk a b = .eq ↔ a <+: b) ∧
    (walk a b ≠ .eq → compareComponents a b = walk a b) := by
  refine ⟨compareComponents_swap a b, compareComponents_eq_eq_iff a b,
    Std.LawfulEqOrd.compare_eq_iff_eq, compareComponents_lt_trans,
    compareComponents_eq_lt_iff a b, walk_eq_eq_iff a b, fun hwalk => ?_⟩
  rw [compareComponents_eq_walk_then]
  cases hab : walk a b with
  | eq => exact absurd hab hwalk
  | lt => rfl
  | gt => rfl

end NoteId

namespace Note

/-! ### The one arrangement of a list of notes -/

/-- An arrangement of notes is their *outline* when it holds the same notes, each at or after those
before it, and the notes of every id as they were found. -/
structure IsOutline (notes outline : List Note) : Prop where
  perm : outline.Perm notes
  ordered : outline.Pairwise fun a b => order a b ≠ .gt
  stable (id : NoteId) : outline.filter (·.id = id) = notes.filter (·.id = id)

theorem order_ne_gt_iff (a b : Note) : order a b ≠ .gt ↔ (compare a.id b.id).isLE = true := by
  rw [← order_ne_gt_eq_isLE, bne_iff_ne]

theorem isOutline_sort (notes : List Note) : IsOutline notes (sort notes) where
  perm := sort_perm notes
  ordered := (pairwise_sort notes).imp fun {a b} hab => (order_ne_gt_iff a b).mpr hab
  stable := filter_sort notes

/-- There is only one outline. -/
theorem IsOutline.eq_sort {notes outline : List Note} (h : IsOutline notes outline) :
    outline = sort notes := by
  have hordered : outline.Pairwise fun a b => (compare a.id b.id).isLE = true :=
    h.ordered.imp fun {a b} hab => (order_ne_gt_iff a b).mp hab
  refine eq_of_filter_id_eq hordered (pairwise_sort notes) fun id => ?_
  rw [h.stable id, filter_sort]

theorem sort_append_sort (xs ys : List Note) : sort (sort xs ++ sort ys) = sort (xs ++ ys) := by
  refine sort_eq_sort fun id => ?_
  rw [List.filter_append, List.filter_append, filter_sort, filter_sort]

/-- **Sorting finds the one outline of a list of notes.**  So sorting what is sorted changes
nothing, and lists that are put together may be sorted by themselves first. -/
theorem sort_unique (notes more : List Note) :
    (∀ outline, IsOutline notes outline ↔ outline = sort notes) ∧
    sort (sort notes) = sort notes ∧
    sort (notes ++ more) = sort (sort notes ++ sort more) := by
  refine ⟨fun outline => ⟨IsOutline.eq_sort, ?_⟩, ?_, (sort_append_sort notes more).symm⟩
  · rintro rfl
    exact isOutline_sort notes
  · refine sort_eq_sort fun id => ?_
    exact filter_sort notes id

end Note

end CodeNotes
