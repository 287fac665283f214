import CodeNotes.Proofs.Text.Scan

/-!
# Texts cut at line separators

A line separator is made of line breaks, no two of them the same, so no occurrence of it starts
within another one.  `cut` gives what stands between the occurrences.  What is before a separator
and what is behind it are cut each on its own (`cut_append`).

A text is *uniform* when no piece of it has a line break, that is, when the separator is all that
ends its lines.  The same is said without cutting anything: every line break is *covered* by an
occurrence of the separator (`uniform_iff_covered`).  In this form it is seen that a stretch of a
uniform text is uniform, unless it starts or ends within a separator (`Uniform.of_isInfix`).
-/

namespace CodeNotes.Text

/-! ### Pieces -/

/-- What stands between the occurrences of a separator, which are looked for from left to right.
The separator is not empty. -/
def cut (sep : List Char) : List Char → List (List Char)
  | [] => [[]]
  | c :: cs =>
    if sep <+: c :: cs then [] :: cut sep (cs.drop (sep.length - 1))
    else (cut sep cs).modifyHead (c :: ·)
termination_by cs => cs.length
decreasing_by
  · simp only [List.length_drop, List.length_cons]
    omega
  · simp

/-- Line breaks that separate lines together, no two of them the same. -/
structure IsSeparator (sep : List Char) : Prop where
  ne_nil : sep ≠ []
  breaks : ∀ c ∈ sep, isBreak c = true
  nodup : sep.Nodup

section Separator

variable {sep : List Char} (hsep : IsSeparator sep)

include hsep

/-- What follows a separator at the start of a text. -/
theorem IsSeparator.append_drop {c : Char} {cs : List Char} (h : sep <+: c :: cs) :
    sep ++ cs.drop (sep.length - 1) = c :: cs := by
  obtain ⟨rest, hrest⟩ := h
  obtain ⟨b, s, rfl⟩ := List.exists_cons_of_ne_nil hsep.ne_nil
  rw [List.cons_append, List.cons.injEq] at hrest
  rw [← hrest.2, hrest.1, List.length_cons, Nat.add_sub_cancel, List.drop_left, List.cons_append]

/-- Reading a text from left to right: it is over, it goes on with a separator, or it does not. -/
@[elab_as_elim]
theorem IsSeparator.reading {motive : List Char → Prop} (cs : List Char) (nil : motive [])
    (separator : ∀ rest, motive rest → motive (sep ++ rest))
    (other : ∀ c rest, ¬ sep <+: c :: rest → motive rest → motive (c :: rest)) : motive cs := by
  fun_induction cut sep cs with
  | case1 => exact nil
  | case2 c cs h ih =>
    have hwhole := separator _ ih
    rwa [hsep.append_drop h] at hwhole
  | case3 c cs h ih => exact other c cs h ih

theorem cut_separator_append (rest : List Char) : cut sep (sep ++ rest) = [] :: cut sep rest := by
  obtain ⟨b, s, rfl⟩ := List.exists_cons_of_ne_nil hsep.ne_nil
  have hpre : b :: s <+: b :: (s ++ rest) := List.prefix_append (b :: s) rest
  rw [List.cons_append, cut, if_pos hpre, List.length_cons, Nat.add_sub_cancel, List.drop_left]

omit hsep in
theorem cut_cons {c : Char} {cs : List Char} (h : ¬ sep <+: c :: cs) :
    cut sep (c :: cs) = (cut sep cs).modifyHead (c :: ·) := by
  rw [cut, if_neg h]

theorem exists_cut_eq_cons (cs : List Char) : ∃ piece pieces, cut sep cs = piece :: pieces := by
  induction cs using hsep.reading with
  | nil => exact ⟨[], [], cut.eq_1 sep⟩
  | separator rest _ => exact ⟨[], cut sep rest, cut_separator_append hsep rest⟩
  | other c rest h ih =>
    obtain ⟨piece, pieces, hcut⟩ := ih
    exact ⟨c :: piece, pieces, by rw [cut_cons h, hcut, List.modifyHead_cons]⟩

/-- No separator starts before another one and ends within it. -/
theorem IsSeparator.prefix_of_prefix_append {t cs : List Char} (ht : t ≠ [])
    (h : sep <+: t ++ (sep ++ cs)) : sep <+: t := by
  rcases List.prefix_or_prefix_of_prefix h (List.prefix_append t _) with hpre | ⟨s, hs⟩
  · exact hpre
  · cases s with
    | nil =>
      rw [List.append_nil] at hs
      exact hs ▸ List.prefix_rfl
    | cons d s =>
      -- The second separator would start with `d`, and so with the first character once more.
      obtain ⟨b, t, rfl⟩ := List.exists_cons_of_ne_nil ht
      have hsecond : d :: s <+: b :: (t ++ d :: s ++ cs) := by
        rw [← hs, List.prefix_append_right_inj] at h
        exact h
      obtain ⟨rfl, -⟩ := List.cons_prefix_cons.mp hsecond
      have hnodup := hsep.nodup
      rw [← hs, List.cons_append, List.nodup_cons] at hnodup
      exact absurd (List.mem_append_right t List.mem_cons_self) hnodup.1

/-- No separator starts within another one and goes on behind it. -/
theorem IsSeparator.suffix_of_suffix_append {pre post before : List Char} {c : Char}
    (hsplit : sep = pre ++ c :: post) (h : pre <:+ sep ++ before) : pre <:+ before := by
  rcases List.suffix_or_suffix_of_suffix h (List.suffix_append sep before) with hin | ⟨x, rfl⟩
  · exact hin
  · have hx : x <:+ sep := List.suffix_append_self_iff.mp h
    cases x using List.reverseRecOn with
    | nil => exact List.suffix_rfl
    | append_singleton x y =>
      -- The last character of the first separator is also the last one of the second, which has it
      -- further in front as well.
      have hy : sep = x ++ y :: (before ++ c :: post) := by
        rw [hsplit, List.append_assoc, List.append_assoc, List.singleton_append]
      have hlast : (before ++ c :: post).getLast? = some y := by
        obtain ⟨front, hfront⟩ := hx
        rw [← List.getLast?_append_of_ne_nil (x ++ [y]) (by simp), List.append_assoc,
          List.singleton_append, ← hy, ← hfront, ← List.append_assoc, List.getLast?_concat]
      have hnodup := hsep.nodup
      rw [hy, List.nodup_append, List.nodup_cons] at hnodup
      exact absurd (List.mem_of_getLast? hlast) hnodup.2.1.1

/-- **Both sides of a separator are cut each on its own.** -/
theorem cut_append (t cs : List Char) : cut sep (t ++ (sep ++ cs)) = cut sep t ++ cut sep cs := by
  induction t using hsep.reading with
  | nil => rw [List.nil_append, cut_separator_append hsep, cut, List.singleton_append]
  | separator rest ih =>
    rw [List.append_assoc, cut_separator_append hsep, ih, cut_separator_append hsep,
      List.cons_append]
  | other c rest h ih =>
    have hwhole : ¬ sep <+: c :: (rest ++ (sep ++ cs)) :=
      fun hpre => h (hsep.prefix_of_prefix_append (List.cons_ne_nil c rest) hpre)
    obtain ⟨piece, pieces, hcut⟩ := exists_cut_eq_cons hsep rest
    rw [List.cons_append, cut_cons hwhole, ih, cut_cons h, hcut]
    rfl

end Separator

/-! ### Uniform texts -/

/-- No piece between the separators has a line break in it. -/
def Uniform (sep cs : List Char) : Prop :=
  ∀ piece ∈ cut sep cs, ∀ c ∈ piece, isBreak c = false

instance (sep cs : List Char) : Decidable (Uniform sep cs) :=
  decidable_of_iff ((cut sep cs).all (·.all (!isBreak ·)) = true) (by simp [Uniform])

/-- Every line break is part of an occurrence of the separator. -/
def Covered (sep cs : List Char) : Prop :=
  ∀ before c after, cs = before ++ c :: after → isBreak c = true →
    ∃ pre post, sep = pre ++ c :: post ∧ pre <:+ before ∧ post <+: after

section Separator

variable {sep : List Char}

theorem uniform_nil : Uniform sep [] := by
  rw [Uniform, cut, List.forall_mem_singleton]
  exact fun c hc => absurd hc List.not_mem_nil

theorem covered_of_not_isBreak {cs : List Char} (h : ∀ c ∈ cs, isBreak c = false) :
    Covered sep cs := by
  intro before c after hcs hc
  rw [h c (hcs ▸ List.mem_append_right before List.mem_cons_self)] at hc
  nomatch hc

variable (hsep : IsSeparator sep)

include hsep

theorem uniform_separator_append (rest : List Char) :
    Uniform sep (sep ++ rest) ↔ Uniform sep rest := by
  rw [Uniform, cut_separator_append hsep, List.forall_mem_cons]
  exact and_iff_right fun c hc => absurd hc List.not_mem_nil

theorem uniform_cons {c : Char} {rest : List Char} (h : ¬ sep <+: c :: rest) :
    Uniform sep (c :: rest) ↔ isBreak c = false ∧ Uniform sep rest := by
  obtain ⟨piece, pieces, hcut⟩ := exists_cut_eq_cons hsep rest
  rw [Uniform, Uniform, cut_cons h, hcut, List.modifyHead_cons, List.forall_mem_cons,
    List.forall_mem_cons, List.forall_mem_cons, and_assoc]

theorem uniform_append (t cs : List Char) :
    Uniform sep (t ++ (sep ++ cs)) ↔ Uniform sep t ∧ Uniform sep cs := by
  rw [Uniform, cut_append hsep, List.forall_mem_append]
  rfl

theorem covered_separator_append (rest : List Char) :
    Covered sep (sep ++ rest) ↔ Covered sep rest := by
  constructor
  · intro h before c after hrest hc
    have hwhole : sep ++ rest = sep ++ before ++ c :: after := by rw [hrest, List.append_assoc]
    obtain ⟨pre, post, heq, hpre, hpost⟩ := h (sep ++ before) c after hwhole hc
    exact ⟨pre, post, heq, hsep.suffix_of_suffix_append heq hpre, hpost⟩
  · intro h before c after heq hc
    -- The line break stands in the first separator or behind it.
    rcases List.append_eq_append_iff.mp heq with ⟨more, rfl, hrest⟩ | ⟨post, hstart, hcons⟩
    · obtain ⟨pre, post, hsplit, hpre, hpost⟩ := h more c after hrest hc
      exact ⟨pre, post, hsplit, hpre.trans (List.suffix_append sep more), hpost⟩
    · cases post with
      | nil =>
        obtain ⟨pre, post, hsplit, hpre, hpost⟩ := h [] c after hcons.symm hc
        rw [List.suffix_nil.mp hpre] at hsplit
        exact ⟨[], post, hsplit, List.nil_suffix, hpost⟩
      | cons d post =>
        obtain ⟨rfl, rfl⟩ := List.cons.inj hcons
        exact ⟨before, post, hstart, List.suffix_rfl, List.prefix_append post rest⟩

theorem covered_cons {c : Char} {rest : List Char} (h : ¬ sep <+: c :: rest) :
    Covered sep (c :: rest) ↔ isBreak c = false ∧ Covered sep rest := by
  constructor
  · intro hcovered
    have hc : isBreak c = false := by
      by_contra hbreak
      obtain ⟨pre, post, heq, hpre, hpost⟩ :=
        hcovered [] c rest rfl (eq_true_of_ne_false hbreak)
      rw [List.suffix_nil.mp hpre, List.nil_append] at heq
      exact h (heq ▸ List.cons_prefix_cons.mpr ⟨rfl, hpost⟩)
    refine ⟨hc, fun before d after hrest hd => ?_⟩
    obtain ⟨pre, post, heq, hpre, hpost⟩ :=
      hcovered (c :: before) d after (by rw [hrest, List.cons_append]) hd
    rcases List.suffix_cons_iff.mp hpre with rfl | hpre
    · have hmem : c ∈ sep := heq ▸ List.mem_append_left _ List.mem_cons_self
      rw [hsep.breaks c hmem] at hc
      nomatch hc
    · exact ⟨pre, post, heq, hpre, hpost⟩
  · rintro ⟨hc, hcovered⟩ before d after heq hd
    rcases List.cons_eq_append_iff.mp heq with ⟨-, hcons⟩ | ⟨before, rfl, hrest⟩
    · obtain ⟨rfl, -⟩ := List.cons.inj hcons
      rw [hc] at hd
      nomatch hd
    · obtain ⟨pre, post, hsplit, hpre, hpost⟩ := hcovered before d after hrest hd
      exact ⟨pre, post, hsplit, hpre.trans (List.suffix_cons c before), hpost⟩

/-- **A text is uniform** iff the separator is all that its line breaks belong to. -/
theorem uniform_iff_covered (cs : List Char) : Uniform sep cs ↔ Covered sep cs := by
  induction cs using hsep.reading with
  | nil => exact iff_of_true uniform_nil (covered_of_not_isBreak nofun)
  | separator rest ih => rw [uniform_separator_append hsep, covered_separator_append hsep, ih]
  | other c rest h ih => rw [uniform_cons hsep h, covered_cons hsep h, ih]

theorem uniform_of_not_isBreak {cs : List Char} (h : ∀ c ∈ cs, isBreak c = false) :
    Uniform sep cs :=
  (uniform_iff_covered hsep cs).mpr (covered_of_not_isBreak h)

/-- What has no line break in it can be put before a uniform text. -/
theorem Uniform.append_left {front cs : List Char} (h : Uniform sep cs)
    (hfront : ∀ c ∈ front, isBreak c = false) : Uniform sep (front ++ cs) := by
  induction front with
  | nil => exact h
  | cons c front ih =>
    obtain ⟨hc, hrest⟩ := List.forall_mem_cons.mp hfront
    have hother : ¬ sep <+: c :: (front ++ cs) := by
      intro hpre
      obtain ⟨b, s, hbs⟩ := List.exists_cons_of_ne_nil hsep.ne_nil
      have hb := hsep.breaks b (hbs ▸ List.mem_cons_self)
      rw [hbs, List.cons_prefix_cons] at hpre
      rw [hpre.1, hc] at hb
      nomatch hb
    rw [List.cons_append, uniform_cons hsep hother]
    exact ⟨hc, ih hrest⟩

/-- **A stretch of a uniform text is uniform** if no line break stands at either end of it. -/
theorem Uniform.of_isInfix {cs part : List Char} (h : Uniform sep cs) (hpart : part <:+: cs)
    (hstart : ∀ c ∈ part.head?, isBreak c = false) (hend : ∀ c ∈ part.getLast?, isBreak c = false) :
    Uniform sep part := by
  rw [uniform_iff_covered hsep] at h ⊢
  obtain ⟨front, back, rfl⟩ := hpart
  rintro before c after rfl hc
  obtain ⟨pre, post, hsplit, hpre, hpost⟩ :=
    h (front ++ before) c (after ++ back) (by simp only [List.append_assoc, List.cons_append]) hc
  have hbreak : ∀ d, d ∈ pre ∨ d ∈ post → isBreak d = true := by
    intro d hd
    refine hsep.breaks d ?_
    rw [hsplit, List.mem_append, List.mem_cons]
    exact hd.imp_right Or.inr
  -- The separator around `c` does not reach beyond the part, since its ends are no line breaks.
  refine ⟨pre, post, hsplit, ?_, ?_⟩
  · rcases List.suffix_or_suffix_of_suffix hpre (List.suffix_append front before) with hin | hout
    · exact hin
    · cases before with
      | nil =>
        rw [hstart c rfl] at hc
        nomatch hc
      | cons b before =>
        have hb := hbreak b (.inl (hout.subset List.mem_cons_self))
        rw [hstart b rfl] at hb
        nomatch hb
  · rcases List.prefix_or_prefix_of_prefix hpost (List.prefix_append after back) with hin | hout
    · exact hin
    · cases after using List.reverseRecOn with
      | nil =>
        rw [hend c List.getLast?_concat] at hc
        nomatch hc
      | append_singleton after b =>
        have hlast : (before ++ c :: (after ++ [b])).getLast? = some b := by
          rw [← List.cons_append, ← List.append_assoc, List.getLast?_concat]
        have hb := hbreak b (.inr (hout.subset (List.mem_append_right after List.mem_cons_self)))
        rw [hend b hlast] at hb
        nomatch hb

end Separator

end CodeNotes.Text
