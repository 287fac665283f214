import CodeNotes.Note.Order
import Mathlib.Data.List.Permutation

/-!
# The outline order

Ids are totally ordered, and the order respects the hierarchy: an id comes before everything below
it (`compare_of_prefix`), and what stands between two ids at or below `p` is itself at or below `p`
(`prefix_of_between`).  `Note.sort` puts notes in this order (`pairwise_sort`) and changes nothing
among notes that share an id (`filter_sort`).  These two facts determine the sorted list
(`sort_eq_sort`), and the first cuts it, for every id, into the notes before it, its own notes, the
notes below it and the rest (`exists_segments`).
-/

namespace CodeNotes

namespace NoteId

/-! ### Ids are totally ordered -/

theorem compareComponents_eq_compare (a b : List UInt64) : compareComponents a b = compare a b := by
  induction a generalizing b with
  | nil => cases b <;> rfl
  | cons x a ih =>
    cases b with
    | nil => rfl
    | cons y b =>
      rw [compareComponents, List.compare_cons_cons, ih]
      cases compare x y <;> rfl

theorem compare_eq_compare_components (a b : NoteId) :
    compare a b = compare a.components b.components :=
  compareComponents_eq_compare a.components b.components

theorem ext_components {a b : NoteId} (h : a.components = b.components) : a = b := by
  cases a
  cases b
  cases h
  rfl

instance : Std.LawfulEqOrd NoteId where
  compare_self {a} := by
    rw [compare_eq_compare_components]
    exact Std.ReflOrd.compare_self
  eq_of_compare {a b} h := by
    rw [compare_eq_compare_components] at h
    exact ext_components (Std.LawfulEqOrd.eq_of_compare h)

instance : Std.TransOrd NoteId where
  eq_swap {a b} := by
    rw [compare_eq_compare_components, compare_eq_compare_components b]
    exact Std.OrientedOrd.eq_swap
  isLE_trans {a b c} hab hbc := by
    rw [compare_eq_compare_components] at hab hbc ⊢
    exact Std.TransOrd.isLE_trans hab hbc

theorem isLE_self (a : NoteId) : (compare a a).isLE = true := by
  rw [Std.ReflOrd.compare_self]
  rfl

theorem eq_of_isLE_of_isLE {a b : NoteId} (hab : (compare a b).isLE = true)
    (hba : (compare b a).isLE = true) : a = b := by
  have hswap : compare b a = (compare a b).swap := Std.OrientedOrd.eq_swap
  rw [hswap] at hba
  apply Std.LawfulEqOrd.eq_of_compare
  cases hcmp : compare a b with
  | eq => rfl
  | lt =>
    rw [hcmp] at hba
    exact absurd hba Bool.false_ne_true
  | gt =>
    rw [hcmp] at hab
    exact absurd hab Bool.false_ne_true

theorem isLE_of_not_lt {a b : NoteId} (h : (compare a b == .lt) = false) :
    (compare b a).isLE = true := by
  have hswap : compare b a = (compare a b).swap := Std.OrientedOrd.eq_swap
  rw [hswap]
  cases hcmp : compare a b with
  | lt =>
    rw [hcmp] at h
    exact absurd h (by decide)
  | eq => rfl
  | gt => rfl

/-! ### The order and the hierarchy -/

/-- What stands between two lists that go on from `p` goes on from `p` as well. -/
theorem components_prefix_of_between {p a b c : List UInt64} (ha : p <+: a) (hc : p <+: c)
    (hab : (compareComponents a b).isLE) (hbc : (compareComponents b c).isLE) : p <+: b := by
  induction p generalizing a b c with
  | nil => exact List.nil_prefix
  | cons x p ih =>
    obtain ⟨a, rfl⟩ := ha
    obtain ⟨c, rfl⟩ := hc
    cases b with
    | nil => exact absurd hab Bool.false_ne_true
    | cons y b =>
      rw [List.cons_append, compareComponents] at hab hbc
      have hswap : compare y x = (compare x y).swap := Std.OrientedOrd.eq_swap
      rw [hswap] at hbc
      cases hxy : compare x y with
      | lt =>
        rw [hxy] at hbc
        exact absurd hbc Bool.false_ne_true
      | gt =>
        rw [hxy] at hab
        exact absurd hab Bool.false_ne_true
      | eq =>
        rw [hxy] at hab hbc
        obtain rfl := Std.LawfulEqOrd.eq_of_compare hxy
        exact List.cons_prefix_cons.mpr
          ⟨rfl, ih (List.prefix_append p a) (List.prefix_append p c) hab hbc⟩

/-- **The ids at or below an id are an interval of the order.** -/
theorem prefix_of_between {p a b c : NoteId} (ha : p.components <+: a.components)
    (hc : p.components <+: c.components) (hab : (compare a b).isLE) (hbc : (compare b c).isLE) :
    p.components <+: b.components :=
  components_prefix_of_between ha hc hab hbc

theorem compareComponents_append_isLE (p t : List UInt64) :
    (compareComponents p (p ++ t)).isLE := by
  induction p with
  | nil => cases t <;> rfl
  | cons x p ih =>
    have hx : compare x x = .eq := Std.ReflOrd.compare_self
    rw [List.cons_append, compareComponents, hx]
    exact ih

/-- **An id comes before everything below it.** -/
theorem compare_of_prefix {p q : NoteId} (h : p.components <+: q.components) (hne : q ≠ p) :
    compare p q = .lt := by
  have hle : (compare p q).isLE := by
    obtain ⟨t, ht⟩ := h
    show (compareComponents p.components q.components).isLE
    rw [← ht]
    exact compareComponents_append_isLE p.components t
  have hneq : compare p q ≠ .eq := fun heq => hne (Std.LawfulEqOrd.eq_of_compare heq).symm
  cases hpq : compare p q with
  | lt => rfl
  | eq => exact absurd hpq hneq
  | gt =>
    rw [hpq] at hle
    exact absurd hle (by decide)

theorem not_prefix_of_lt {p a : NoteId} (h : compare a p = .lt) :
    ¬ p.components <+: a.components := by
  intro hbelow
  have hne : a ≠ p := by
    rintro rfl
    rw [Std.ReflOrd.compare_self] at h
    exact absurd h (by decide)
  have hgt := compare_of_prefix hbelow hne
  rw [Std.OrientedOrd.eq_swap, h] at hgt
  exact absurd hgt (by decide)

/-- An id is deeper than an id it goes on from. -/
theorem depth_lt_of_prefix {p q : NoteId} (h : p.components <+: q.components) (hne : q ≠ p) :
    p.depth < q.depth := by
  refine Nat.lt_of_le_of_ne h.length_le fun hlen => hne ?_
  exact (ext_components (h.eq_of_length hlen)).symm

end NoteId

namespace Note

/-! ### The sorted list -/

theorem order_ne_gt_eq_isLE (a b : Note) : (order a b != .gt) = (compare a.id b.id).isLE := by
  rw [order]
  cases compare a.id b.id <;> rfl

theorem sort_eq_mergeSort (notes : List Note) :
    sort notes = notes.mergeSort fun a b => (compare a.id b.id).isLE := by
  rw [sort]
  congr 1
  funext a b
  exact order_ne_gt_eq_isLE a b

theorem isLE_trans (a b c : Note) (hab : (compare a.id b.id).isLE = true)
    (hbc : (compare b.id c.id).isLE = true) : (compare a.id c.id).isLE = true :=
  Std.TransOrd.isLE_trans hab hbc

theorem isLE_total (a b : Note) :
    ((compare a.id b.id).isLE || (compare b.id a.id).isLE) = true := by
  have hswap : compare b.id a.id = (compare a.id b.id).swap := Std.OrientedOrd.eq_swap
  rw [hswap]
  cases compare a.id b.id <;> rfl

theorem sort_perm (notes : List Note) : (sort notes).Perm notes :=
  List.mergeSort_perm notes _

/-- **The sorted list is in outline order.** -/
theorem pairwise_sort (notes : List Note) :
    (sort notes).Pairwise fun a b => (compare a.id b.id).isLE = true := by
  rw [sort_eq_mergeSort]
  exact List.pairwise_mergeSort isLE_trans isLE_total notes

/-- **Sorting is stable.**  Among the notes of one id nothing changes. -/
theorem filter_sort (notes : List Note) (id : NoteId) :
    (sort notes).filter (·.id = id) = notes.filter (·.id = id) := by
  have hequal : (notes.filter (·.id = id)).Pairwise
      fun a b => (compare a.id b.id).isLE = true := by
    refine List.pairwise_of_forall_mem_list fun a ha b hb => ?_
    have haid : a.id = id := of_decide_eq_true (List.mem_filter.mp ha).2
    have hbid : b.id = id := of_decide_eq_true (List.mem_filter.mp hb).2
    rw [haid, hbid, Std.ReflOrd.compare_self]
    rfl
  have hsub : (notes.filter (·.id = id)).Sublist (sort notes) := by
    rw [sort_eq_mergeSort]
    exact List.sublist_mergeSort isLE_trans isLE_total hequal List.filter_sublist
  -- The notes with this id are a sublist of those of the sorted list, and equally many.
  have hfilter := hsub.filter (·.id = id)
  rw [List.filter_filter] at hfilter
  simp only [Bool.and_self] at hfilter
  exact (hfilter.eq_of_length ((sort_perm notes).filter _).length_eq.symm).symm

/-! ### Order and stability determine the list -/

theorem filter_id_cons_self {n : Note} {id : NoteId} (h : n.id = id) (l : List Note) :
    (n :: l).filter (·.id = id) = n :: l.filter (·.id = id) := by
  rw [List.filter_cons, if_pos (decide_eq_true h)]

theorem filter_id_cons_of_ne {n : Note} {id : NoteId} (h : n.id ≠ id) (l : List Note) :
    (n :: l).filter (·.id = id) = l.filter (·.id = id) := by
  rw [List.filter_cons, if_neg (by rw [decide_eq_true_eq]; exact h)]

theorem mem_of_filter_id_eq {l l' : List Note} {n : Note}
    (h : l.filter (·.id = n.id) = l'.filter (·.id = n.id)) (hn : n ∈ l) : n ∈ l' := by
  have hn' : n ∈ l.filter (·.id = n.id) := List.mem_filter.mpr ⟨hn, decide_eq_true rfl⟩
  rw [h] at hn'
  exact (List.mem_filter.mp hn').1

theorem eq_of_filter_id_eq {xs ys : List Note}
    (hxs : xs.Pairwise fun a b => (compare a.id b.id).isLE = true)
    (hys : ys.Pairwise fun a b => (compare a.id b.id).isLE = true)
    (h : ∀ id, xs.filter (·.id = id) = ys.filter (·.id = id)) : xs = ys := by
  induction xs generalizing ys with
  | nil =>
    cases ys with
    | nil => rfl
    | cons b ys =>
      exact absurd (mem_of_filter_id_eq (h b.id).symm List.mem_cons_self) List.not_mem_nil
  | cons a xs ih =>
    cases ys with
    | nil => exact absurd (mem_of_filter_id_eq (h a.id) List.mem_cons_self) List.not_mem_nil
    | cons b ys =>
      obtain ⟨hax, hxs'⟩ := List.pairwise_cons.mp hxs
      obtain ⟨hby, hys'⟩ := List.pairwise_cons.mp hys
      -- Each of the two first notes stands in the other list, so neither id is the smaller one.
      have hab : (compare a.id b.id).isLE = true := by
        rcases List.mem_cons.mp (mem_of_filter_id_eq (h b.id).symm List.mem_cons_self) with
          rfl | hb
        · exact NoteId.isLE_self b.id
        · exact hax b hb
      have hba : (compare b.id a.id).isLE = true := by
        rcases List.mem_cons.mp (mem_of_filter_id_eq (h a.id) List.mem_cons_self) with rfl | ha
        · exact NoteId.isLE_self a.id
        · exact hby a ha
      have hid : b.id = a.id := NoteId.eq_of_isLE_of_isLE hba hab
      have hhead := h a.id
      rw [filter_id_cons_self rfl, filter_id_cons_self hid] at hhead
      obtain ⟨rfl, htail⟩ := List.cons.inj hhead
      refine congrArg (a :: ·) (ih hxs' hys' fun id => ?_)
      by_cases hida : a.id = id
      · rw [← hida]
        exact htail
      · have hother := h id
        rw [filter_id_cons_of_ne hida, filter_id_cons_of_ne hida] at hother
        exact hother

/-- Two lists with the same notes of every id, in the same order, are sorted alike. -/
theorem sort_eq_sort {xs ys : List Note}
    (h : ∀ id, xs.filter (·.id = id) = ys.filter (·.id = id)) : sort xs = sort ys := by
  refine eq_of_filter_id_eq (pairwise_sort xs) (pairwise_sort ys) fun id => ?_
  rw [filter_sort, filter_sort]
  exact h id

/-! ### The segments of an id -/

/-- A list can be cut in two at a test that, once it fails, fails for good. -/
theorem exists_cut (test : Note → Bool) {l : List Note}
    (h : l.Pairwise fun a b => test b = true → test a = true) :
    ∃ front back, l = front ++ back ∧ (∀ n ∈ front, test n = true) ∧
      ∀ n ∈ back, test n = false := by
  induction l with
  | nil => exact ⟨[], [], rfl, by simp, by simp⟩
  | cons a l ih =>
    obtain ⟨ha, hl⟩ := List.pairwise_cons.mp h
    cases hta : test a with
    | true =>
      obtain ⟨front, back, rfl, hfront, hback⟩ := ih hl
      exact ⟨a :: front, back, rfl, List.forall_mem_cons.mpr ⟨hta, hfront⟩, hback⟩
    | false =>
      refine ⟨[], a :: l, rfl, by simp, List.forall_mem_cons.mpr ⟨hta, fun b hb => ?_⟩⟩
      rw [← Bool.not_eq_true]
      intro htb
      rw [ha b hb htb] at hta
      exact absurd hta (by decide)

/-- **Subtrees are contiguous.**  The sorted list has the notes of an id and, right after them, the
notes below that id; everything else stands before or after. -/
theorem exists_segments (notes : List Note) (p : NoteId) :
    ∃ before own below after, sort notes = before ++ (own ++ below) ++ after ∧
      (∀ n ∈ own, n.id = p) ∧
      (∀ n ∈ below, p.components <+: n.id.components ∧ n.id ≠ p) ∧
      (∀ n ∈ before, ¬ p.components <+: n.id.components) ∧
      ∀ n ∈ after, ¬ p.components <+: n.id.components := by
  have hsorted := pairwise_sort notes
  -- The notes before `p` are cut off first.
  obtain ⟨before, rest, hsplit, hbefore, hrest⟩ :=
    exists_cut (fun n => compare n.id p == .lt) (hsorted.imp fun {a b} hab hb => by
      rw [beq_iff_eq] at hb ⊢
      exact Std.TransCmp.lt_of_isLE_of_lt hab hb)
  rw [hsplit, List.pairwise_append] at hsorted
  have hfrom : ∀ n ∈ rest, (compare p n.id).isLE = true := by
    intro n hn
    exact NoteId.isLE_of_not_lt (hrest n hn)
  -- From `p` on, the notes at or below `p` come first, because they are an interval.
  obtain ⟨covered, after, rfl, hcovered, hafter⟩ :=
    exists_cut (fun n => p.components.isPrefixOf n.id.components)
      (hsorted.2.1.imp_of_mem fun {a b} ha _ hab hb => by
        rw [List.isPrefixOf_iff_prefix] at hb ⊢
        exact NoteId.prefix_of_between List.prefix_rfl hb (hfrom a ha) hab)
  have hle := (List.pairwise_append.mp hsorted.2.1).1
  -- Among these, the notes of `p` itself come first.
  obtain ⟨own, below, rfl, hown, hbelow⟩ :=
    exists_cut (fun n => decide (n.id = p)) (hle.imp_of_mem fun {a b} ha _ hab hb => by
      rw [decide_eq_true_eq] at hb ⊢
      rw [hb] at hab
      exact NoteId.eq_of_isLE_of_isLE hab (hfrom a (List.mem_append_left _ ha)))
  refine ⟨before, own, below, after, ?_, ?_, ?_, ?_, ?_⟩
  · rw [hsplit, List.append_assoc before]
  · intro n hn
    exact of_decide_eq_true (hown n hn)
  · intro n hn
    refine ⟨List.isPrefixOf_iff_prefix.mp (hcovered n (List.mem_append_right _ hn)), ?_⟩
    exact of_decide_eq_false (hbelow n hn)
  · intro n hn
    exact NoteId.not_prefix_of_lt (beq_iff_eq.mp (hbefore n hn))
  · intro n hn hbelow
    have hno := hafter n hn
    rw [List.isPrefixOf_iff_prefix.mpr hbelow] at hno
    exact absurd hno (by decide)

end Note

end CodeNotes
