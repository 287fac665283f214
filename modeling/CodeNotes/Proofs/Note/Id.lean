import CodeNotes.Note.Id

/-!
# Dotted ids read back

`NoteId.parse` undoes `NoteId.display` (`parse_display`).  A component is written with the decimal
digits of its value, so no dot stands inside one: cutting a dotted text at its dots gives back the
groups it was joined from (`splitOn_dotted`), and each group gives back its number
(`component?_repr`).

Not only what `display` writes is read: any groups of digits with dots between them are an id if
there are not too many and their values are not too large (`parse_joined`, `parse_joined_of_large`).
-/

namespace CodeNotes.NoteId

/-! ### One component -/

theorem isDigit_of_mem_repr {n : Nat} {c : Char} (h : c ∈ n.repr.toList) :
    Text.isDigit c = true := by
  rw [Nat.toList_repr] at h
  have hc := Nat.isDigit_of_mem_toDigits (by decide) (by decide) h
  rw [Char.isDigit] at hc
  rw [Text.isDigit]
  exact hc

theorem repr_toList_ne_nil (n : Nat) : n.repr.toList ≠ [] := by
  rw [Nat.toList_repr]
  exact Nat.toDigits_ne_nil

theorem digitsValue_repr (n : Nat) : digitsValue n.repr.toList = n := by
  rw [Nat.toList_repr]
  exact Nat.ofDigitChars_ten_toDigits

/-- The decimal digits of a component read as that component. -/
theorem component?_repr (n : UInt64) : component? n.toNat.repr.toList = some n := by
  have hne : n.toNat.repr.toList.isEmpty = false :=
    List.isEmpty_eq_false_iff.mpr (repr_toList_ne_nil _)
  have hall : n.toNat.repr.toList.all Text.isDigit = true :=
    List.all_eq_true.mpr fun _ hc => isDigit_of_mem_repr hc
  rw [component?, hne, hall]
  simp only [digitsValue_repr, UInt64.toNat_lt_size, UInt64.ofNat_toNat, Bool.not_true,
    Bool.or_self, Bool.false_eq_true, ite_false, ite_true]

/-! ### Groups and dots -/

/-- A group: one or more digits. -/
def IsGroup (g : List Char) : Prop :=
  g ≠ [] ∧ ∀ c ∈ g, Text.isDigit c = true

theorem IsGroup.dot_not_mem {g : List Char} (h : IsGroup g) : '.' ∉ g := by
  intro hdot
  exact absurd (h.2 '.' hdot) (by decide)

/-- Groups with dots between them. -/
def joined (gs : List (List Char)) : List Char :=
  ['.'].intercalate gs

/-- Cutting at the dots gives back the groups that were joined. -/
theorem splitOn_joined {gs : List (List Char)} (hne : gs ≠ []) (hgs : ∀ g ∈ gs, IsGroup g) :
    (joined gs).splitOn '.' = gs :=
  List.splitOn_intercalate '.' (fun g hg => (hgs g hg).dot_not_mem) hne

/-- The groups of digits that components are written with. -/
def groups (l : List UInt64) : List (List Char) :=
  l.map fun n => n.toNat.repr.toList

theorem groups_ne_nil {l : List UInt64} (hl : l ≠ []) : groups l ≠ [] := by
  rw [groups, ne_eq, List.map_eq_nil_iff]
  exact hl

theorem isGroup_of_mem_groups {l : List UInt64} {g : List Char} (h : g ∈ groups l) :
    IsGroup g := by
  obtain ⟨n, -, rfl⟩ := List.mem_map.mp h
  exact ⟨repr_toList_ne_nil _, fun c hc => isDigit_of_mem_repr hc⟩

theorem toList_dotted (l : List UInt64) : (dotted l).toList = joined (groups l) := by
  rw [dotted, String.toList_intercalate, List.map_map]
  rfl

/-- Cutting a dotted text at its dots gives back the groups it was joined from. -/
theorem splitOn_dotted {l : List UInt64} (hl : l ≠ []) :
    (dotted l).toList.splitOn '.' = groups l := by
  rw [toList_dotted]
  exact splitOn_joined (groups_ne_nil hl) fun g hg => isGroup_of_mem_groups hg

theorem components?_dotted {l : List UInt64} (hl : l ≠ []) :
    components? (dotted l).toList = some l := by
  rw [components?, splitOn_dotted hl, groups, List.mapM_map]
  clear hl
  induction l with
  | nil => rfl
  | cons n l ih =>
    rw [List.mapM_cons, ih, Function.comp, component?_repr]
    rfl

/-! ### Ids -/

@[simp]
theorem ofComponents?_components (id : NoteId) : ofComponents? id.components = some id := by
  rw [ofComponents?, dif_pos ⟨id.ne_nil, id.depth_le⟩]

/-- **Reading undoes writing.**  Every id is the one that its own dotted text stands for. -/
theorem parse_display (id : NoteId) : parse id.display = .ok id := by
  rw [parse, display, components?_dotted id.ne_nil, Option.bind_some, ofComponents?_components]

/-! ### Any groups of digits -/

theorem component?_of_isGroup {g : List Char} (h : IsGroup g) :
    component? g =
      if digitsValue g < UInt64.size then some (UInt64.ofNat (digitsValue g)) else none := by
  have hne : g.isEmpty = false := List.isEmpty_eq_false_iff.mpr h.1
  have hall : g.all Text.isDigit = true := List.all_eq_true.mpr h.2
  rw [component?, hne, hall]
  rfl

/-- Groups whose values fit are read as these values. -/
theorem mapM_component?_of_fits {gs : List (List Char)} (hgs : ∀ g ∈ gs, IsGroup g)
    (hfits : ∀ g ∈ gs, digitsValue g < UInt64.size) :
    gs.mapM component? = some (gs.map fun g => UInt64.ofNat (digitsValue g)) := by
  induction gs with
  | nil => rfl
  | cons g gs ih =>
    rw [List.forall_mem_cons] at hgs hfits
    rw [List.mapM_cons, ih hgs.2 hfits.2, component?_of_isGroup hgs.1, if_pos hfits.1]
    rfl

/-- One group whose value does not fit spoils them all. -/
theorem mapM_component?_of_large {gs : List (List Char)} (hgs : ∀ g ∈ gs, IsGroup g) {g : List Char}
    (hg : g ∈ gs) (hlarge : UInt64.size ≤ digitsValue g) : gs.mapM component? = none := by
  induction gs with
  | nil => exact absurd hg List.not_mem_nil
  | cons g' gs ih =>
    rw [List.forall_mem_cons] at hgs
    rw [List.mapM_cons]
    rcases List.mem_cons.mp hg with rfl | hg
    · rw [component?_of_isGroup hgs.1, if_neg (Nat.not_lt.mpr hlarge)]
      rfl
    · rw [ih hgs.2 hg]
      cases component? g' <;> rfl

/-- **Groups of digits are an id**, with the values of the groups, if all of these fit. -/
theorem parse_joined {gs : List (List Char)} (hne : gs ≠ []) (hlength : gs.length ≤ maxDepth)
    (hgs : ∀ g ∈ gs, IsGroup g) (hfits : ∀ g ∈ gs, digitsValue g < UInt64.size) :
    ∃ id, parse (String.ofList (joined gs)) = .ok id ∧
      id.components.map UInt64.toNat = gs.map digitsValue := by
  have hcomponents : components? (joined gs) =
      some (gs.map fun g => UInt64.ofNat (digitsValue g)) := by
    rw [components?, splitOn_joined hne hgs, mapM_component?_of_fits hgs hfits]
  have hshape : (gs.map fun g => UInt64.ofNat (digitsValue g)) ≠ [] ∧
      (gs.map fun g => UInt64.ofNat (digitsValue g)).length ≤ maxDepth := by
    rw [List.length_map, ne_eq, List.map_eq_nil_iff]
    exact ⟨hne, hlength⟩
  refine ⟨⟨_, hshape.1, hshape.2⟩, ?_, ?_⟩
  · rw [parse, String.toList_ofList, hcomponents, Option.bind_some, ofComponents?, dif_pos hshape]
  · rw [List.map_map]
    refine List.map_congr_left fun g hg => ?_
    exact UInt64.toNat_ofNat_of_lt' (hfits g hg)

/-- **Groups of digits are no id** if the value of one of them does not fit. -/
theorem parse_joined_of_large {gs : List (List Char)} (hne : gs ≠ [])
    (hgs : ∀ g ∈ gs, IsGroup g) {g : List Char} (hg : g ∈ gs)
    (hlarge : UInt64.size ≤ digitsValue g) :
    parse (String.ofList (joined gs)) = .error ⟨String.ofList (joined gs)⟩ := by
  rw [parse, String.toList_ofList, components?, splitOn_joined hne hgs,
    mapM_component?_of_large hgs hg hlarge, Option.bind_none]

end CodeNotes.NoteId
