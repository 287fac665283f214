import CodeNotes.Proofs.Note.Id
import CodeNotes.Proofs.Note.Order

/-!
# The spellings of an id

A `Spelling` is a dotted text that stands for an id: one to eight groups of digits, whose values fit
in 64 bits.  The texts that `NoteId.parse` takes are exactly the spellings, and the values of the
groups are the components (`parse_eq_ok_iff`).

An id has many spellings, because zeros in front of a group do not count.  `NoteId.display` writes
the one without them: the decimal digits of a value are the digits of any group with this value from
the first one on that is not zero (`repr_digitsValue`).  So what is written for an id that was read
is what was read, without these zeros (`display_of_spelling`), and different components are written
differently (`dotted_injective`).
-/

namespace CodeNotes.NoteId

/-! ### Zeros in front -/

/-- A group without the zeros in front of it; one zero stays of a group that has nothing else. -/
def withoutZeros (g : List Char) : List Char :=
  match g.dropWhile (· == '0') with
  | [] => ['0']
  | d :: ds => d :: ds

theorem digitsValue_dropWhile_zero (g : List Char) :
    digitsValue (g.dropWhile (· == '0')) = digitsValue g := by
  induction g with
  | nil => rfl
  | cons c g ih =>
    rw [List.dropWhile_cons]
    split
    · next hzero =>
      obtain rfl : c = '0' := eq_of_beq hzero
      rw [ih]
      rfl
    · rfl

theorem digitChar_of_isDigit {c : Char} (h : Text.isDigit c = true) :
    c.toNat - '0'.toNat < 10 ∧ (c.toNat - '0'.toNat).digitChar = c := by
  rw [Text.isDigit, Bool.and_eq_true, decide_eq_true_eq, decide_eq_true_eq] at h
  have hlow : '0'.toNat ≤ c.toNat := h.1
  have hhigh : c.toNat ≤ '9'.toNat := h.2
  have hlt : c.toNat - '0'.toNat < 10 := by
    have hnine : '9'.toNat = '0'.toNat + 9 := rfl
    omega
  refine ⟨hlt, Char.toNat_inj.mp ?_⟩
  rw [Nat.toNat_digitChar_of_lt_ten hlt]
  have hzero : '0'.toNat = 48 := rfl
  omega

/-- Digits behind a number that is not zero are the last digits of what they make of it. -/
theorem toDigits_append_of_pos {cs : List Char} (hcs : ∀ c ∈ cs, Text.isDigit c = true) {n : Nat}
    (hn : 0 < n) : Nat.toDigits 10 n ++ cs = Nat.toDigits 10 (Nat.ofDigitChars 10 cs n) := by
  induction cs generalizing n with
  | nil => rw [List.append_nil, Nat.ofDigitChars_nil]
  | cons c cs ih =>
    rw [List.forall_mem_cons] at hcs
    obtain ⟨hlt, hchar⟩ := digitChar_of_isDigit hcs.1
    have hnext : Nat.toDigits 10 n ++ [c] = Nat.toDigits 10 (10 * n + (c.toNat - '0'.toNat)) := by
      rw [← Nat.toDigits_append_toDigits (by decide) hn hlt, Nat.toDigits_of_lt_base hlt, hchar]
    rw [Nat.ofDigitChars_cons, ← ih hcs.2 (by omega), ← hnext, List.append_assoc,
      List.singleton_append]

/-- **The decimal digits of a value** are those of any group with this value, without the zeros in
front. -/
theorem repr_digitsValue {g : List Char} (h : ∀ c ∈ g, Text.isDigit c = true) :
    (digitsValue g).repr.toList = withoutZeros g := by
  rw [Nat.toList_repr, ← digitsValue_dropWhile_zero, withoutZeros]
  cases hrest : g.dropWhile (· == '0') with
  | nil => rfl
  | cons d ds =>
    have hdigits : ∀ c ∈ d :: ds, Text.isDigit c = true := by
      intro c hc
      exact h c ((List.dropWhile_sublist _).subset (hrest ▸ hc))
    rw [List.forall_mem_cons] at hdigits
    obtain ⟨hlt, hchar⟩ := digitChar_of_isDigit hdigits.1
    -- The scan stopped here, so the first digit is not zero and starts the decimal digits.
    have hpos : 0 < d.toNat - '0'.toNat := by
      have hstop := List.head?_dropWhile_not (· == '0') g
      rw [hrest] at hstop
      refine Nat.pos_of_ne_zero fun hzero => ?_
      rw [hzero] at hchar
      rw [← hchar] at hstop
      exact Bool.noConfusion (hstop : ('0' == '0') = false)
    calc Nat.toDigits 10 (digitsValue (d :: ds))
        = Nat.toDigits 10 (Nat.ofDigitChars 10 ds (d.toNat - '0'.toNat)) := by
          show Nat.toDigits 10 (Nat.ofDigitChars 10 (d :: ds) 0) = _
          rw [Nat.ofDigitChars_cons, Nat.mul_zero, Nat.zero_add]
      _ = Nat.toDigits 10 (d.toNat - '0'.toNat) ++ ds :=
          (toDigits_append_of_pos hdigits.2 hpos).symm
      _ = d :: ds := by rw [Nat.toDigits_of_lt_base hlt, hchar, List.singleton_append]

/-! ### Spellings -/

/-- A dotted text that stands for an id, by its groups. -/
structure Spelling where
  groups : List (List Char)
  ne_nil : groups ≠ []
  depth_le : groups.length ≤ 8
  groups_digits : ∀ g ∈ groups, IsGroup g
  /-- The values of the groups are numbers of 64 bits. -/
  fits : ∀ g ∈ groups, Nat.ofDigitChars 10 g 0 < UInt64.size

namespace Spelling

/-- The text itself. -/
def text (w : Spelling) : List Char :=
  joined w.groups

/-- The decimal values of the groups. -/
def values (w : Spelling) : List Nat :=
  w.groups.map fun g => Nat.ofDigitChars 10 g 0

/-- The text without zeros in front of its groups. -/
def plainText (w : Spelling) : List Char :=
  joined (w.groups.map withoutZeros)

end Spelling

/-! ### From a text to its spelling -/

theorem component?_eq_some_iff {g : List Char} {n : UInt64} :
    component? g = some n ↔ IsGroup g ∧ digitsValue g = n.toNat := by
  constructor
  · intro h
    have hgroup : IsGroup g := by
      by_contra hnot
      rw [component?, if_pos] at h
      · cases h
      · rw [IsGroup, not_and_or] at hnot
        simpa using hnot
    rw [component?_of_isGroup hgroup] at h
    split at h
    · next hlt =>
      refine ⟨hgroup, ?_⟩
      rw [← Option.some.inj h, UInt64.toNat_ofNat_of_lt' hlt]
    · cases h
  · rintro ⟨hgroup, hvalue⟩
    have hlt : digitsValue g < UInt64.size := hvalue ▸ UInt64.toNat_lt_size n
    rw [component?_of_isGroup hgroup, if_pos hlt, hvalue, UInt64.ofNat_toNat]

/-- What is read from groups one by one: they are groups of digits, and the numbers are their
values. -/
theorem mapM_component?_eq_some {gs : List (List Char)} {l : List UInt64}
    (h : gs.mapM component? = some l) :
    (∀ g ∈ gs, IsGroup g ∧ digitsValue g < UInt64.size) ∧
      l.map UInt64.toNat = gs.map digitsValue := by
  induction gs generalizing l with
  | nil =>
    rw [← Option.some.inj h]
    exact ⟨fun _ hg => absurd hg List.not_mem_nil, rfl⟩
  | cons g gs ih =>
    rw [List.mapM_cons] at h
    simp only [Option.bind_eq_bind, Option.bind_eq_some_iff] at h
    obtain ⟨n, hn, l, hl, hcons⟩ := h
    obtain rfl := Option.some.inj hcons
    obtain ⟨hgroup, hvalue⟩ := component?_eq_some_iff.mp hn
    obtain ⟨hgroups, hvalues⟩ := ih hl
    refine ⟨List.forall_mem_cons.mpr ⟨⟨hgroup, ?_⟩, hgroups⟩, ?_⟩
    · rw [hvalue]
      exact UInt64.toNat_lt_size n
    · rw [List.map_cons, List.map_cons, hvalue, hvalues]

theorem eq_of_ofComponents? {l : List UInt64} {id : NoteId} (h : ofComponents? l = some id) :
    id.components = l := by
  rw [ofComponents?] at h
  split at h
  · rw [← Option.some.inj h]
  · cases h

theorem parse_eq_ok {s : String} {id : NoteId} (h : parse s = .ok id) :
    components? s.toList = some id.components := by
  rw [parse] at h
  split at h
  · next id' hread =>
    obtain ⟨l, hl, hid⟩ := Option.bind_eq_some_iff.mp hread
    rw [hl, ← eq_of_ofComponents? hid, Except.ok.inj h]
  · cases h

/-- A text that is read as an id is a spelling of it. -/
theorem exists_spelling {s : String} {id : NoteId} (h : parse s = .ok id) :
    ∃ w : Spelling, w.text = s.toList ∧ w.values = id.components.map UInt64.toNat := by
  have hread := parse_eq_ok h
  rw [components?] at hread
  obtain ⟨hgroups, hvalues⟩ := mapM_component?_eq_some hread
  have hlength : (s.toList.splitOn '.').length = id.components.length := by
    have hlengths := congrArg List.length hvalues
    rw [List.length_map, List.length_map] at hlengths
    exact hlengths.symm
  refine ⟨{
    groups := s.toList.splitOn '.'
    ne_nil := List.splitOn_ne_nil '.' s.toList
    depth_le := hlength ▸ id.depth_le
    groups_digits := fun g hg => (hgroups g hg).1
    fits := fun g hg => (hgroups g hg).2 }, List.intercalate_splitOn '.', hvalues.symm⟩

/-! ### From a spelling to the id -/

/-- **A spelling is read**, and the components are the values of its groups. -/
theorem Spelling.parse_text (w : Spelling) {s : String} (hw : w.text = s.toList) :
    ∃ id, parse s = .ok id ∧ id.components.map UInt64.toNat = w.values := by
  obtain ⟨id, hid, hvalues⟩ := parse_joined w.ne_nil w.depth_le w.groups_digits w.fits
  have hs : String.ofList (joined w.groups) = s := by
    rw [← String.ofList_toList (s := s), ← hw]
    rfl
  rw [hs] at hid
  exact ⟨id, hid, hvalues⟩

/-- Components are told by their values. -/
theorem eq_of_map_toNat_eq {a b : NoteId}
    (h : a.components.map UInt64.toNat = b.components.map UInt64.toNat) : a = b :=
  ext_components (List.map_injective_iff.mpr (fun _ _ => UInt64.toNat_inj.mp) h)

theorem parse_eq_ok_iff {s : String} {id : NoteId} :
    parse s = .ok id ↔
      ∃ w : Spelling, w.text = s.toList ∧ w.values = id.components.map UInt64.toNat := by
  constructor
  · exact exists_spelling
  · rintro ⟨w, hw, hvalues⟩
    obtain ⟨id', hid', hvalues'⟩ := w.parse_text hw
    rw [hid', eq_of_map_toNat_eq (hvalues'.trans hvalues)]

theorem eq_of_parse_eq_error {s : String} {e : Malformed} (h : parse s = .error e) : e = ⟨s⟩ := by
  rw [parse] at h
  split at h
  · cases h
  · exact (Except.error.inj h).symm

/-- A text that is no spelling is reported as it is. -/
theorem parse_eq_error_iff {s : String} {e : Malformed} :
    parse s = .error e ↔ e = ⟨s⟩ ∧ ¬ ∃ w : Spelling, w.text = s.toList := by
  constructor
  · intro h
    refine ⟨eq_of_parse_eq_error h, ?_⟩
    rintro ⟨w, hw⟩
    obtain ⟨id, hid, -⟩ := w.parse_text hw
    rw [hid] at h
    nomatch h
  · rintro ⟨rfl, hnone⟩
    cases hparse : parse s with
    | ok id =>
      obtain ⟨w, hw, -⟩ := exists_spelling hparse
      exact absurd ⟨w, hw⟩ hnone
    | error e => rw [eq_of_parse_eq_error hparse]

/-! ### What is written -/

/-- **What is written is what was read, without zeros in front.** -/
theorem display_of_spelling {w : Spelling} {id : NoteId}
    (h : w.values = id.components.map UInt64.toNat) : id.display.toList = w.plainText := by
  have hgroups : groups id.components = w.groups.map withoutZeros := by
    have hrepr : groups id.components
        = (id.components.map UInt64.toNat).map fun n => n.repr.toList := by
      rw [List.map_map]
      rfl
    rw [hrepr, ← h, Spelling.values, List.map_map]
    refine List.map_congr_left fun g hg => ?_
    exact repr_digitsValue (w.groups_digits g hg).2
  rw [display, toList_dotted, hgroups, Spelling.plainText]

theorem dotted_ne_empty {l : List UInt64} (hl : l ≠ []) : (dotted l).toList ≠ [] := by
  intro hempty
  have hcut := splitOn_dotted hl
  rw [hempty] at hcut
  have hgroup : IsGroup [] := isGroup_of_mem_groups (l := l) (by rw [← hcut]; decide)
  exact hgroup.1 rfl

/-- **Different components are written differently**, whatever their number. -/
theorem dotted_injective {l l' : List UInt64} (h : dotted l = dotted l') : l = l' := by
  rcases eq_or_ne l [] with rfl | hl <;> rcases eq_or_ne l' [] with rfl | hl'
  · rfl
  · exact absurd (congrArg String.toList h.symm) (dotted_ne_empty hl')
  · exact absurd (congrArg String.toList h) (dotted_ne_empty hl)
  · have hread := components?_dotted hl
    rw [h, components?_dotted hl'] at hread
    exact (Option.some.inj hread).symm

/-- **Reading and writing ids are inverse up to zeros in front.**  A text is read if it is a
spelling, and the components are then the values of its groups; any other text is reported as it is.
What is read and written again is the same text without the zeros in front of its groups, it is read
as the same id, and ids and components are told apart by what is written. -/
theorem parse_iff_spelling (s : String) :
    (∀ id, parse s = .ok id ↔
      ∃ w : Spelling, w.text = s.toList ∧ w.values = id.components.map UInt64.toNat) ∧
    (∀ w : Spelling, w.text = s.toList → ∃ id, parse s = .ok id ∧
      id.components.map UInt64.toNat = w.values ∧ id.display.toList = w.plainText) ∧
    (∀ e, parse s = .error e ↔ e = ⟨s⟩ ∧ ¬ ∃ w : Spelling, w.text = s.toList) ∧
    (∀ id, parse s = .ok id → parse id.display = .ok id) ∧
    (∀ a b : NoteId, a.display = b.display ↔ a = b) ∧
    (∀ l l' : List UInt64, dotted l = dotted l' ↔ l = l') := by
  refine ⟨fun id => parse_eq_ok_iff, ?_, fun e => parse_eq_error_iff,
    fun id _ => parse_display id,
    fun a b => ⟨fun h => ext_components (dotted_injective h), congrArg display⟩,
    fun l l' => ⟨dotted_injective, congrArg dotted⟩⟩
  intro w hw
  obtain ⟨id, hid, hvalues⟩ := w.parse_text hw
  exact ⟨id, hid, hvalues, display_of_spelling hvalues.symm⟩

end CodeNotes.NoteId
