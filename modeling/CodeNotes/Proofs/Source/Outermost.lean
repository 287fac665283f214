import CodeNotes.Proofs.Source.Cursor

/-!
# The outermost nodes of a tree

A node of a tree is told by its address: the numbers of the children to go down to from the root.
Addresses are ordered as lists, so a node comes before what lies in it, and what lies in a child
comes before what lies in a later one.  `Tree.places` gives the addresses of the nodes that
`Tree.outermost` lists (`map_at?_places`).  They are exactly the addresses of nodes that satisfy the
test and have no node above them that does (`mem_places_iff`), and they come in order, each once
(`pairwise_places`).
-/

namespace CodeNotes.Tree

/-- What holds of a tree if it holds of its children holds of every tree. -/
@[elab_as_elim]
theorem induction_children {motive : Tree → Prop}
    (h : ∀ t : Tree, (∀ u ∈ t.children, motive u) → motive t) : ∀ t, motive t
  | node kind span condition children =>
    h (node kind span condition children) fun u _ => induction_children h u
termination_by t => sizeOf t
decreasing_by
  next hu =>
  have hlt := List.sizeOf_lt_of_mem (show u ∈ children from hu)
  rw [Tree.node.sizeOf_spec]
  omega

/-! ### Addresses -/

/-- The node at an address. -/
def at? : Tree → List Nat → Option Tree
  | t, [] => some t
  | t, i :: a => t.children[i]?.bind fun u => u.at? a

/-- The address of a node that satisfies a test and lies in no other such node. -/
structure IsOutermost (test : Tree → Bool) (t : Tree) (a : List Nat) : Prop where
  satisfies : ∃ u, t.at? a = some u ∧ test u = true
  /-- No node above the address satisfies the test. -/
  above : ∀ p, p <+: a → p ≠ a → ∀ u, t.at? p = some u → test u = false

variable {test : Tree → Bool}

theorem isOutermost_of_test {t : Tree} (h : test t = true) {a : List Nat} :
    IsOutermost test t a ↔ a = [] := by
  constructor
  · intro houter
    by_contra hne
    have hroot := houter.above [] List.nil_prefix (Ne.symm hne) t rfl
    rw [h] at hroot
    nomatch hroot
  · rintro rfl
    refine ⟨⟨t, rfl, h⟩, ?_⟩
    intro p hp hne
    exact absurd (List.prefix_nil.mp hp) hne

theorem isOutermost_of_not_test {t : Tree} (h : test t = false) {a : List Nat} :
    IsOutermost test t a ↔
      ∃ i b u, a = i :: b ∧ t.children[i]? = some u ∧ IsOutermost test u b := by
  constructor
  · rintro ⟨⟨v, hv, htest⟩, habove⟩
    cases a with
    | nil =>
      rw [← Option.some.inj hv, h] at htest
      nomatch htest
    | cons i b =>
      obtain ⟨u, hu, hub⟩ := Option.bind_eq_some_iff.mp hv
      refine ⟨i, b, u, rfl, hu, ⟨v, hub, htest⟩, ?_⟩
      intro p hp hne w hw
      refine habove (i :: p) (List.cons_prefix_cons.mpr ⟨rfl, hp⟩) ?_ w ?_
      · exact fun heq => hne (List.cons.inj heq).2
      · rw [at?, hu, Option.bind_some, hw]
  · rintro ⟨i, b, u, rfl, hu, ⟨v, hv, htest⟩, habove⟩
    refine ⟨⟨v, ?_, htest⟩, ?_⟩
    · rw [at?, hu, Option.bind_some, hv]
    · intro p hp hne w hw
      cases p with
      | nil => rwa [← Option.some.inj hw]
      | cons j p =>
        obtain ⟨rfl, hfront⟩ := List.cons_prefix_cons.mp hp
        rw [at?, hu, Option.bind_some] at hw
        exact habove p hfront (fun heq => hne (heq ▸ rfl)) w hw

/-! ### Where the outermost nodes are -/

mutual

/-- The addresses of the topmost nodes that satisfy a test. -/
def places (test : Tree → Bool) : Tree → List (List Nat)
  | t@(node _ _ _ children) => if test t then [[]] else placesAll test 0 children

/-- The addresses of the topmost nodes of several trees that satisfy a test.  The trees are the
children of one node, from the one with the given number on. -/
def placesAll (test : Tree → Bool) (k : Nat) : List Tree → List (List Nat)
  | [] => []
  | t :: ts => (places test t).map (k :: ·) ++ placesAll test (k + 1) ts

end

theorem places_of_test {t : Tree} (h : test t = true) : t.places test = [[]] := by
  cases t
  rw [places, if_pos h]

theorem places_of_not_test {t : Tree} (h : test t = false) :
    t.places test = placesAll test 0 t.children := by
  cases t
  rw [places, if_neg (by rw [h]; exact Bool.false_ne_true), children]

/-- Every address among the places of several trees starts with the number of one of them. -/
theorem exists_cons_of_mem_placesAll {ts : List Tree} {k : Nat} {a : List Nat}
    (h : a ∈ placesAll test k ts) : ∃ i b, a = i :: b ∧ k ≤ i := by
  induction ts generalizing k with
  | nil => exact absurd h (by rw [placesAll]; exact List.not_mem_nil)
  | cons t ts ih =>
    rw [placesAll, List.mem_append, List.mem_map] at h
    rcases h with ⟨b, -, rfl⟩ | h
    · exact ⟨k, b, rfl, Nat.le_refl k⟩
    · obtain ⟨i, b, rfl, hi⟩ := ih h
      exact ⟨i, b, rfl, Nat.le_of_succ_le hi⟩

theorem mem_placesAll_iff {a : List Nat} {ts : List Tree}
    (hts : ∀ u ∈ ts, ∀ b, b ∈ u.places test ↔ IsOutermost test u b) (k : Nat) :
    a ∈ placesAll test k ts ↔
      ∃ i b u, a = (k + i) :: b ∧ ts[i]? = some u ∧ IsOutermost test u b := by
  induction ts generalizing k with
  | nil => simp [placesAll]
  | cons t ts ih =>
    rw [List.forall_mem_cons] at hts
    rw [placesAll, List.mem_append, List.mem_map, ih hts.2]
    constructor
    · rintro (⟨b, hb, rfl⟩ | ⟨i, b, u, rfl, hu, houter⟩)
      · exact ⟨0, b, t, rfl, rfl, (hts.1 b).mp hb⟩
      · exact ⟨i + 1, b, u, by rw [Nat.add_assoc, Nat.add_comm 1 i], hu, houter⟩
    · rintro ⟨i, b, u, rfl, hu, houter⟩
      cases i with
      | zero =>
        obtain rfl : t = u := Option.some.inj hu
        exact .inl ⟨b, (hts.1 b).mpr houter, rfl⟩
      | succ i => exact .inr ⟨i, b, u, by rw [Nat.add_assoc, Nat.add_comm 1 i], hu, houter⟩

/-- **The places are those of the outermost nodes.** -/
theorem mem_places_iff (t : Tree) (a : List Nat) : a ∈ t.places test ↔ IsOutermost test t a := by
  induction t using induction_children generalizing a with
  | h t ih =>
    cases h : test t with
    | true => rw [places_of_test h, isOutermost_of_test h, List.mem_singleton]
    | false =>
      rw [places_of_not_test h, isOutermost_of_not_test h, mem_placesAll_iff ih]
      simp only [Nat.zero_add]

/-- The places of several trees come in order if those of each of them do. -/
theorem pairwise_placesAll {ts : List Tree}
    (hts : ∀ u ∈ ts, (u.places test).Pairwise (· < ·)) (k : Nat) :
    (placesAll test k ts).Pairwise (· < ·) := by
  induction ts generalizing k with
  | nil =>
    rw [placesAll]
    exact List.Pairwise.nil
  | cons t ts ih =>
    rw [List.forall_mem_cons] at hts
    rw [placesAll, List.pairwise_append, List.pairwise_map]
    refine ⟨hts.1.imp fun hlt => List.cons_lt_cons_self.mpr hlt, ih hts.2 (k + 1), ?_⟩
    -- The number of the child comes first in an address, and it decides.
    intro a ha b hb
    obtain ⟨a, -, rfl⟩ := List.mem_map.mp ha
    obtain ⟨i, b, rfl, hi⟩ := exists_cons_of_mem_placesAll hb
    exact List.cons_lt_cons_iff.mpr (.inl hi)

/-- **The places come in order, each once.** -/
theorem pairwise_places (t : Tree) : (t.places test).Pairwise (· < ·) := by
  induction t using induction_children with
  | h t ih =>
    cases h : test t with
    | true =>
      rw [places_of_test h]
      exact List.pairwise_singleton _ _
    | false =>
      rw [places_of_not_test h]
      exact pairwise_placesAll ih 0

/-- The nodes at the places of the last children of a node. -/
theorem map_at?_placesAll {t : Tree} {k : Nat} {ts : List Tree} (hdrop : t.children.drop k = ts)
    (hts : ∀ u ∈ ts, (u.places test).map u.at? = (u.outermost test).map some) :
    (placesAll test k ts).map t.at? = (outermostAll test ts).map some := by
  induction ts generalizing k with
  | nil =>
    rw [placesAll, outermostAll]
    rfl
  | cons u ts ih =>
    rw [List.forall_mem_cons] at hts
    have hchild : t.children[k]? = some u := by
      rw [← List.head?_drop, hdrop, List.head?_cons]
    have hrest : t.children.drop (k + 1) = ts := by
      rw [← List.drop_drop, hdrop]
      rfl
    rw [placesAll, outermostAll, List.map_append, List.map_append, ih hrest hts.2, List.map_map,
      ← hts.1]
    congr 1
    refine List.map_congr_left fun a _ => ?_
    rw [Function.comp, at?, hchild, Option.bind_some]

/-- **The nodes at the places** are those that `outermost` lists. -/
theorem map_at?_places (t : Tree) : (t.places test).map t.at? = (t.outermost test).map some := by
  induction t using induction_children with
  | h t ih =>
    cases h : test t with
    | true =>
      rw [places_of_test h, outermost_of_test h]
      rfl
    | false =>
      rw [places_of_not_test h, outermost_of_not_test h]
      exact map_at?_placesAll rfl ih

end CodeNotes.Tree
