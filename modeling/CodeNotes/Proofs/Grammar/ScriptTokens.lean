import CodeNotes.Grammar.ScriptTokens
import CodeNotes.Proofs.Grammar.Scanners

/-!
# Tokens of JavaScript and TypeScript and their ends

No token of the two languages ends before it starts (`onward_lexicon`), neither those of the classes
(`notBefore_of_mem_classes`) nor those that depend on context (`onward_context`).
-/

namespace CodeNotes.Grammar.Script

variable (text : Array Char) (i : Nat)

/-! ### Names and numbers -/

theorem notBefore_nonEmpty (stop : Nat) : NotBefore i (nonEmpty i stop) := by
  simp only [nonEmpty, notBefore_ite, notBefore_some, notBefore_none]
  exact ⟨Nat.le_of_lt, fun _ => trivial⟩

theorem le_digitRun_go (isDigit : Char → Bool) (fuel : Nat) :
    i ≤ digitRun.go text isDigit fuel i := by
  fun_induction digitRun.go text isDigit fuel i with
  | case1 i => exact Nat.le_refl i
  | case2 fuel i _ ih => exact Nat.le_of_succ_le ih
  | case3 fuel i _ _ ih => exact Nat.le_trans (Nat.le_add_right i 2) ih
  | case4 fuel i => exact Nat.le_refl i

theorem notBefore_digitRun (isDigit : Char → Bool) : NotBefore i (digitRun text isDigit i) := by
  simp only [digitRun, notBefore_ite, notBefore_some, notBefore_none]
  exact ⟨fun _ => Nat.le_of_succ_le (le_digitRun_go text (i + 1) isDigit _), fun _ => trivial⟩

theorem le_exponent : i ≤ exponent text i := by
  unfold exponent
  extract_lets j
  have hj : i ≤ j := by grind
  split
  · exact ((notBefore_digitRun text j _).of_le hj).getD (Nat.le_refl i)
  · exact Nat.le_refl i

theorem notBefore_number : NotBefore i (number text i) := by
  unfold number
  extract_lets suffix mark based
  have hsuffix : ∀ j, j ≤ suffix j := by
    intro j
    simp only [suffix]
    grind
  have hbased : ∀ isDigit, NotBefore i (based isDigit) := by
    intro isDigit
    simp only [based]
    split
    · next j hj =>
      have hdigits := notBefore_digitRun text (i + 2) isDigit j hj
      have hmark := hsuffix j
      rw [notBefore_some]
      omega
    · rw [notBefore_some]
      exact Nat.le_succ i
  have hfraction := ((notBefore_digitRun text (i + 1) Text.isDigit).of_le (Nat.le_succ i)).map
    (le_exponent text)
  have hwhole : ∀ j, i ≤ j →
      i ≤ exponent text ((digitRun text Text.isDigit (j + 1)).getD (j + 1)) := by
    intro j hj
    have hpoint := (notBefore_digitRun text (j + 1) Text.isDigit).getD (Nat.le_refl (j + 1))
    have hexponent := le_exponent text ((digitRun text Text.isDigit (j + 1)).getD (j + 1))
    omega
  simp only [notBefore_ite, hbased, hfraction, implies_true, true_and]
  intro _ _ _ _
  split
  · exact notBefore_none i
  · next j hj =>
    have hdigits := notBefore_digitRun text i Text.isDigit j hj
    have hexponent := le_exponent text j
    have hmark := hsuffix j
    simp only [notBefore_ite, notBefore_some, hwhole j hdigits, implies_true, true_and]
    grind

/-! ### Text -/

theorem notBefore_escape : NotBefore i (escape text i) := by
  simp only [escape, notBefore_ite, notBefore_some, notBefore_none]
  grind

theorem notBefore_characterReference : NotBefore i (characterReference text i) := by
  unfold characterReference
  extract_lets closed
  have hclosed : ∀ from' stop limit, NotBefore from' (closed from' stop limit) := by
    intro from' stop limit
    simp only [closed, notBefore_ite, notBefore_some, notBefore_none]
    grind
  have hthree := (hclosed (i + 3) (skipWhile text isHex (i + 3)) 6).of_le (i := i) (by omega)
  have htwo := (hclosed (i + 2) (skipWhile text Text.isDigit (i + 2)) 5).of_le (i := i) (by omega)
  have hone := (hclosed (i + 1) (skipWhile text isLetter (i + 1)) 30).of_le (i := i) (by omega)
  simp [notBefore_ite, hthree, htwo, hone]

theorem notBefore_hyphenName : NotBefore i (hyphenName text i) := by
  simp only [hyphenName, notBefore_ite, notBefore_some, notBefore_none]
  grind

theorem notBefore_of_mem_classes {c : TokenClass} (hc : c ∈ classes) :
    NotBefore i (c.scan text i) := by
  simp only [classes, List.mem_cons, List.not_mem_nil, or_false] at hc
  rcases hc with rfl | rfl | rfl | rfl | rfl | rfl | rfl | rfl | rfl | rfl | rfl | rfl | rfl | rfl |
    rfl
  · exact notBefore_nonEmpty i _
  · simp [notBefore_ite, (notBefore_nonEmpty (i + 1) _).of_le (Nat.le_succ i)]
  · exact notBefore_number text i
  · simp [notBefore_ite, restOfLine, le_skipWhile]
  · exact notBefore_nonEmpty i _
  · exact notBefore_nonEmpty i _
  · exact notBefore_escape text i
  · exact notBefore_nonEmpty i _
  · simp [notBefore_ite]
  · exact notBefore_nonEmpty i _
  · exact notBefore_hyphenName text i
  · exact notBefore_characterReference text i
  · exact notBefore_nonEmpty i _
  · exact notBefore_nonEmpty i _
  · simp only [notBefore_ite, notBefore_some, notBefore_none]
    grind

/-! ### Line ends -/

theorem notBefore_blockEnd (fuel : Nat) : NotBefore i (blockEnd text fuel i) := by
  induction fuel generalizing i with
  | zero => exact notBefore_none i
  | succ fuel ih =>
    have hnext := (ih (i + 1)).of_le (Nat.le_succ i)
    simp only [blockEnd, notBefore_ite, notBefore_some, notBefore_none, hnext]
    grind

theorem le_lookPast (through commented broken : Bool) (fuel : Nat) :
    i ≤ (lookPast text through fuel i commented broken).offset := by
  -- A comment that is not closed reaches to the end of the text.
  have hblock : ∀ j, charAt text j = '/' →
      j ≤ (blockEnd text (text.size - j) (j + 2)).getD text.size := by
    intro j hj
    have hsize : j < text.size := lt_size_of_charAt (by rw [hj]; decide)
    have hend := (notBefore_blockEnd text (j + 2) (text.size - j)).of_le (Nat.le_add_right j 2)
    exact hend.getD (Nat.le_of_lt hsize)
  fun_induction lookPast text through fuel i commented broken <;> grind

theorem le_lookForSemicolon (rules : SemicolonRules) (wanted : Terminal → Bool) (fuel : Nat)
    (commented : Bool) :
    i ≤ (lookForSemicolon rules wanted text fuel i commented).offset := by
  fun_induction lookForSemicolon rules wanted text fuel i commented <;> grind [le_lookPast]

/-! ### Tokens that depend on context -/

theorem notBefore_conditionalMark (optionalMarks : Bool) :
    NotBefore i (conditionalMark optionalMarks text i) := by
  simp only [conditionalMark, notBefore_ite, notBefore_some, notBefore_none]
  grind

theorem notBefore_templateRun : NotBefore i (templateRun text i) := by
  have hgo : ∀ fuel j, NotBefore i (templateRun.go text i fuel j) := by
    intro fuel
    induction fuel with
    | zero => exact fun _ => notBefore_none i
    | succ fuel ih =>
      intro j
      simp [templateRun.go, notBefore_ite, notBefore_nonEmpty, ih]
  exact hgo _ _

theorem notBefore_elementText : NotBefore i (elementText text i) := by
  simp [elementText, notBefore_ite, le_skipWhile]

theorem bounds_of_markupComment {j : Nat} (h : markupComment text i = some j) :
    i ≤ j ∧ j ≤ text.size := by
  unfold markupComment at h
  extract_lets k at h
  have hk : i ≤ k := le_skipWhile ..
  split at h
  · next hopen =>
    obtain rfl := Option.some.inj h
    have hsize : k + 3 ≤ text.size := by
      rcases Bool.or_eq_true_iff.mp hopen with hopen | hopen
      · have hmark : k + 4 ≤ text.size := size_le_of_standsAt hopen
        omega
      · exact size_le_of_standsAt hopen
    exact ⟨by grind, skipWhile_le_size hsize⟩
  · nomatch h

/-- What depends on context does not end before it starts, and a comment in the style of HTML ends
within the text. -/
theorem onward_context (rules : SemicolonRules) (optionalMarks : Bool) (wanted : Terminal → Bool)
    (state : Unit) :
    (context rules optionalMarks wanted text i state).Onward text.size i := by
  unfold context
  extract_lets semicolon token look
  have htoken : ∀ name found, NotBefore i found → (token name found).Onward text.size i := by
    intro name found hfound
    cases found with
    | none => trivial
    | some j => exact notBefore_some.mp hfound
  have hlook : i ≤ look.offset := le_lookForSemicolon text i rules wanted _ false
  split
  · -- A run of a template.
    split
    · trivial
    · exact htoken _ _ (notBefore_templateRun text i)
  · split
    · -- The text between tags.
      next stop hstop =>
      split at hstop
      · exact notBefore_elementText text i stop hstop
      · nomatch hstop
    · split
      · -- The end of a line, or else a question mark on it.
        split
        · split
          · exact Nat.le_refl i
          · trivial
        · split
          · have hmark := notBefore_conditionalMark text look.offset optionalMarks
            exact htoken _ _ (hmark.of_le hlook)
          · trivial
      · split
        · exact htoken _ _ (notBefore_conditionalMark text i optionalMarks)
        · split
          · split
            · next stop hstop => exact bounds_of_markupComment text i hstop
            · trivial
          · trivial

theorem onward_lexicon (rules : SemicolonRules) (optionalMarks : Bool) :
    (lexicon rules optionalMarks).Onward where
  scan _ hc text i := notBefore_of_mem_classes text i hc
  comment h := (commentAt_bounds h).imp_left Nat.le_of_lt
  context wanted text i state := onward_context text i rules optionalMarks wanted state

end CodeNotes.Grammar.Script
