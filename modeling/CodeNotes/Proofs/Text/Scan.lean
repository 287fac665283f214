import CodeNotes.Text.Space
import Mathlib.Data.List.DropRight
import Mathlib.Data.List.TakeWhile

/-!
# Scanning and trimming

A scan for characters of one class stops at the first character outside it, so it finds the border
between a text of the class and a text that starts outside it (`takeWhile_append_stop`,
`dropWhile_append_stop`).  A text is *trimmed* when no white space stands at either end of it;
trimming removes exactly the white space that surrounds a trimmed text (`trim_surround`), and every
text gets trimmed by it (`trimmed_trim`).
-/

namespace CodeNotes.Text

theorem isBreak_iff {c : Char} : isBreak c = true ↔ c = '\r' ∨ c = '\n' := by
  rw [isBreak, Bool.or_eq_true, beq_iff_eq, beq_iff_eq]

theorem isBreak_eq_false_iff {c : Char} : isBreak c = false ↔ c ≠ '\r' ∧ c ≠ '\n' := by
  rw [← Bool.not_eq_true, isBreak_iff, not_or]

/-! ### Where a scan stops -/

theorem dropWhile_eq_self {p : Char → Bool} {cs : List Char} (h : ∀ c ∈ cs.head?, p c = false) :
    cs.dropWhile p = cs := by
  cases cs with
  | nil => rfl
  | cons c cs =>
    have hc : p c = false := h c rfl
    rw [List.dropWhile_cons, hc]
    rfl

theorem takeWhile_eq_nil {p : Char → Bool} {cs : List Char} (h : ∀ c ∈ cs.head?, p c = false) :
    cs.takeWhile p = [] := by
  cases cs with
  | nil => rfl
  | cons c cs =>
    have hc : p c = false := h c rfl
    rw [List.takeWhile_cons, hc]
    rfl

/-- A scan takes the whole of a text of its class when something else follows. -/
theorem takeWhile_append_stop {p : Char → Bool} {cs rest : List Char}
    (hcs : ∀ c ∈ cs, p c = true) (hrest : ∀ c ∈ rest.head?, p c = false) :
    (cs ++ rest).takeWhile p = cs := by
  rw [List.takeWhile_append_of_pos hcs, takeWhile_eq_nil hrest, List.append_nil]

/-- What a scan leaves is what follows the text of its class. -/
theorem dropWhile_append_stop {p : Char → Bool} {cs rest : List Char}
    (hcs : ∀ c ∈ cs, p c = true) (hrest : ∀ c ∈ rest.head?, p c = false) :
    (cs ++ rest).dropWhile p = rest := by
  rw [List.dropWhile_append_of_pos hcs, dropWhile_eq_self hrest]

/-! ### The end of a text -/

theorem dropEndWhile_append_of_pos {p : Char → Bool} {cs post : List Char}
    (hpost : ∀ c ∈ post, p c = true) : dropEndWhile p (cs ++ post) = dropEndWhile p cs := by
  rw [dropEndWhile, List.reverse_append,
    List.dropWhile_append_of_pos fun c hc => hpost c (List.mem_reverse.mp hc)]
  rfl

theorem dropEndWhile_eq_self {p : Char → Bool} {cs : List Char}
    (h : ∀ c ∈ cs.getLast?, p c = false) : dropEndWhile p cs = cs := by
  have hrev : ∀ c ∈ cs.reverse.head?, p c = false := by
    rw [List.head?_reverse]
    exact h
  rw [dropEndWhile, dropWhile_eq_self hrev, List.reverse_reverse]

theorem getLast?_dropEndWhile {p : Char → Bool} {cs : List Char} :
    ∀ c ∈ (dropEndWhile p cs).getLast?, p c = false := by
  intro c hc
  obtain ⟨hne, rfl⟩ := List.mem_getLast?_eq_getLast hc
  exact eq_false_of_ne_true (List.rdropWhile_last_not p cs hne)

/-! ### Trimmed texts -/

/-- A text without white space at its start and at its end. -/
def Trimmed (cs : List Char) : Prop :=
  (∀ c ∈ cs.head?, isSpace c = false) ∧ ∀ c ∈ cs.getLast?, isSpace c = false

theorem trimmed_iff {cs : List Char} :
    Trimmed cs ↔ cs.head?.all (!isSpace ·) = true ∧ cs.getLast?.all (!isSpace ·) = true := by
  unfold Trimmed
  cases cs.head? <;> cases cs.getLast? <;> simp

instance : DecidablePred Trimmed := fun _ =>
  decidable_of_iff _ trimmed_iff.symm

theorem trim_eq_nil {cs : List Char} (h : ∀ c ∈ cs, isSpace c = true) : trim cs = [] := by
  have hnil : trimStart cs = [] := List.dropWhile_eq_nil_iff.mpr h
  rw [trim, hnil]
  rfl

/-- **Trimming finds a trimmed text.**  What is removed is exactly the white space around it. -/
theorem trim_surround {pre cs post : List Char} (hpre : ∀ c ∈ pre, isSpace c = true)
    (h : Trimmed cs) (hpost : ∀ c ∈ post, isSpace c = true) : trim (pre ++ cs ++ post) = cs := by
  cases cs with
  | nil =>
    apply trim_eq_nil
    intro c hc
    rw [List.append_nil, List.mem_append] at hc
    exact hc.elim (hpre c) (hpost c)
  | cons c cs =>
    have hstart : trimStart (pre ++ (c :: cs) ++ post) = (c :: cs) ++ post := by
      rw [trimStart, List.append_assoc]
      exact dropWhile_append_stop hpre h.1
    rw [trim, hstart, trimEnd, dropEndWhile_append_of_pos hpost, dropEndWhile_eq_self h.2]

theorem trim_append_of_isSpace {pre cs : List Char} (hpre : ∀ c ∈ pre, isSpace c = true) :
    trim (pre ++ cs) = trim cs := by
  rw [trim, trim, trimStart, trimStart, List.dropWhile_append_of_pos hpre]

theorem head?_trimStart (cs : List Char) : ∀ c ∈ (trimStart cs).head?, isSpace c = false := by
  intro c hc
  have hstop := List.head?_dropWhile_not isSpace cs
  rw [show (cs.dropWhile isSpace).head? = some c from hc] at hstop
  exact hstop

/-- What is trimmed at the end starts as it did. -/
theorem trimEnd_prefix_self (cs : List Char) : trimEnd cs <+: cs :=
  List.rdropWhile_prefix isSpace cs

/-- **What was trimmed is trimmed.** -/
theorem trimmed_trim (cs : List Char) : Trimmed (trim cs) := by
  refine ⟨fun c hc => ?_, getLast?_dropEndWhile⟩
  obtain ⟨rest, hrest⟩ := trimEnd_prefix_self (trimStart cs)
  refine head?_trimStart cs c ?_
  rw [← hrest, List.head?_append_of_ne_nil]
  · exact hc
  · intro hnil
    rw [trim, hnil] at hc
    exact absurd hc (by simp)

theorem mem_of_mem_trim {cs : List Char} {c : Char} (h : c ∈ trim cs) : c ∈ cs := by
  have hstart : c ∈ trimStart cs := (trimEnd_prefix_self _).subset h
  exact (List.dropWhile_sublist isSpace).subset hstart

end CodeNotes.Text
