import CodeNotes.Grammar.PythonTokens
import CodeNotes.Proofs.Grammar.Scanners

/-!
# Tokens of Python and their ends

No token of Python ends before it starts (`onward_lexicon`), neither those of the classes
(`notBefore_of_mem_classes`) nor those of lines, blocks and strings, which depend on context
(`onward_context`).
-/

namespace CodeNotes.Grammar.Python

variable (text : Array Char) (i : Nat)

/-! ### Numbers and names -/

theorem notBefore_nonEmpty (stop : Nat) : NotBefore i (nonEmpty i stop) := by
  simp only [nonEmpty, notBefore_ite, notBefore_some, notBefore_none]
  exact ⟨Nat.le_of_lt, fun _ => trivial⟩

theorem le_optionally (a b : Char) : i ≤ optionally a b text i := by
  unfold optionally
  split
  · exact Nat.le_succ i
  · exact Nat.le_refl i

theorem notBefore_decimals : NotBefore i (decimals text i) :=
  notBefore_nonEmpty i _

theorem notBefore_integer : NotBefore i (integer text i) := by
  unfold integer
  extract_lets long decimal based mark
  have hlong : ∀ j, j ≤ long j := fun j => le_optionally text j ..
  have hdecimal : NotBefore i decimal :=
    (notBefore_decimals text i).map fun j => Nat.le_trans (hlong j) (Nat.le_max_left ..)
  have hbased : ∀ isDigit, NotBefore i (based isDigit) := fun isDigit =>
    (((notBefore_nonEmpty (i + 2) _).map hlong).of_le (Nat.le_add_right i 2)).or hdecimal
  simp only [notBefore_ite, hdecimal, hbased, implies_true, and_self]

theorem notBefore_float : NotBefore i (float text i) := by
  unfold float
  extract_lets exponent? exponent imaginary
  have hexponent? : ∀ j, NotBefore j (exponent? j) := by
    intro j
    have hsign : j + 1 ≤ optionally '+' '-' text (j + 1) := le_optionally ..
    have hdigits : NotBefore j (decimals text (optionally '+' '-' text (j + 1))) :=
      (notBefore_decimals text _).of_le (by omega)
    simp [exponent?, notBefore_ite, hdigits]
  have himaginary : ∀ j, j ≤ imaginary j := fun j => le_optionally text j ..
  have hexponent : ∀ j, j ≤ imaginary (exponent j) := fun j =>
    Nat.le_trans ((hexponent? j).getD (Nat.le_refl j)) (himaginary _)
  split
  · next j hj =>
    have hdigits : i ≤ j := notBefore_decimals text i j hj
    split
    · have hpoint := (notBefore_decimals text (j + 1)).getD (Nat.le_refl (j + 1))
      have hfraction := hexponent ((decimals text (j + 1)).getD (j + 1))
      rw [notBefore_some]
      omega
    · exact ((hexponent? j).map himaginary).of_le hdigits
  · split
    · exact ((notBefore_decimals text (i + 1)).map hexponent).of_le (Nat.le_succ i)
    · exact notBefore_none i

/-! ### Strings -/

theorem notBefore_escape : NotBefore i (escape text i) := by
  simp only [escape, notBefore_ite, notBefore_some, notBefore_none]
  grind

theorem le_afterBreak : i ≤ afterBreak text i := by
  grind [afterBreak]

/-- Plain characters and the end of a string end behind where they start. -/
theorem le_of_piece {opening : Opening} {start fuel stop : Nat} (hi : start ≤ i)
    (h : piece opening text start fuel i = .content stop ∨
      piece opening text start fuel i = .close stop) : start ≤ stop := by
  fun_induction piece opening text start fuel i <;> grind [le_afterBreak]

theorem le_of_openingAt {fuel stop : Nat} {opening found : Opening}
    (h : openingAt text fuel i opening = some (found, stop)) : i ≤ stop := by
  fun_induction openingAt text fuel i opening <;> grind

/-! ### Lines and blocks -/

theorem offset_le_of_look {comments : Bool} {fuel : Nat} {l l' : Look}
    (h : look comments text fuel l = some l') : l.offset ≤ l'.offset := by
  fun_induction look comments text fuel l <;> grind

theorem bounds_of_joinedLine {j : Nat} (h : joinedLine text i = some j) :
    i ≤ j ∧ j ≤ text.size := by
  have hsize := @lt_size_of_charAt text
  grind [joinedLine]

theorem onward_betweenTokens (wanted : Terminal → Bool) (state : Layout) :
    (betweenTokens wanted text i state).Onward text.size i := by
  unfold betweenTokens
  extract_lets joined comments
  have hjoined : joined.Onward text.size i := by
    simp only [joined]
    split
    · next stop hstop =>
      split at hstop
      · nomatch hstop
      · exact bounds_of_joinedLine text i hstop
    · trivial
  split
  · exact hjoined
  · next l hl =>
    have hoffset : i ≤ l.offset := offset_le_of_look text hl
    split
    · exact Nat.le_refl i
    · split
      · split
        · next opening stop hopening =>
          exact Nat.le_trans hoffset (le_of_openingAt text l.offset hopening)
        · exact hjoined
      · exact hjoined

/-- What depends on context does not end before it starts, and a backslash that joins two lines
stands within the text. -/
theorem onward_context (wanted : Terminal → Bool) (state : Layout) :
    (context wanted text i state).Onward text.size i := by
  unfold context
  split
  · exact onward_betweenTokens text i wanted state
  · next opening _ =>
    extract_lets c
    split
    · split
      · exact Nat.le_add_right i 2
      · trivial
    · split
      · next stop hstop => exact le_of_piece text i (Nat.le_refl i) (.inl hstop)
      · next stop hstop => exact le_of_piece text i (Nat.le_refl i) (.inr hstop)
      · trivial
      · exact onward_betweenTokens text i wanted state

/-! ### The lexicon -/

theorem notBefore_of_mem_classes {c : TokenClass} (hc : c ∈ classes) :
    NotBefore i (c.scan text i) := by
  simp only [classes, List.mem_cons, List.not_mem_nil, or_false] at hc
  rcases hc with rfl | rfl | rfl | rfl | rfl | rfl | rfl
  · exact notBefore_nonEmpty i _
  · exact notBefore_integer text i
  · exact notBefore_float text i
  · exact notBefore_escape text i
  · simp [notBefore_ite]
  · simp [notBefore_ite]
  · exact notBefore_nonEmpty i _

theorem onward_lexicon : lexicon.Onward where
  scan _ hc text i := notBefore_of_mem_classes text i hc
  comment h := (commentAt_bounds h).imp_left Nat.le_of_lt
  context wanted text i state := onward_context text i wanted state

end CodeNotes.Grammar.Python
