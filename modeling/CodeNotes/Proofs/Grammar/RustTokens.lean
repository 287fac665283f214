import CodeNotes.Grammar.RustTokens
import CodeNotes.Proofs.Grammar.Scanners

/-!
# Tokens of Rust and their ends

No token of Rust ends before it starts (`onward_lexicon`).
-/

namespace CodeNotes.Grammar.Rust

variable (text : Array Char) (i : Nat)

theorem notBefore_nonEmpty (stop : Nat) : NotBefore i (nonEmpty i stop) := by
  simp only [nonEmpty, notBefore_ite, notBefore_some, notBefore_none]
  exact ⟨Nat.le_of_lt, fun _ => trivial⟩

theorem notBefore_metavariable : NotBefore i (metavariable text i) := by
  simp only [metavariable, notBefore_ite, notBefore_some, notBefore_none]
  grind

/-! ### Text -/

theorem notBefore_escape : NotBefore i (escape text i) := by
  simp only [escape, notBefore_ite, notBefore_some, notBefore_none]
  grind

theorem notBefore_stringEnd (fuel : Nat) : NotBefore i (stringEnd text fuel i) := by
  induction fuel generalizing i with
  | zero => exact notBefore_none i
  | succ fuel ih =>
    have hescape := (notBefore_escape text i).bind ih
    have hnext := (ih (i + 1)).of_le (Nat.le_succ i)
    simp [stringEnd, notBefore_ite, hescape, hnext]

theorem notBefore_string : NotBefore i (string text i) := by
  unfold string
  extract_lets c start
  have hstart : i ≤ start := by grind
  have hend := (notBefore_stringEnd text (start + 1) (text.size - start)).of_le (i := i) (by omega)
  simp [notBefore_ite, hend]

theorem notBefore_rawStringEnd (hashes fuel : Nat) :
    NotBefore i (rawStringEnd hashes text fuel i) := by
  induction fuel generalizing i with
  | zero => exact notBefore_none i
  | succ fuel ih =>
    have hnext := (ih (i + 1)).of_le (Nat.le_succ i)
    simp only [rawStringEnd, notBefore_ite, notBefore_some, notBefore_none, hnext]
    grind

theorem notBefore_rawString : NotBefore i (rawString text i) := by
  unfold rawString
  extract_lets c start quote
  have hstart : i ≤ start := by grind
  have hquote : start + 1 ≤ quote := le_skipWhile ..
  have hend := (notBefore_rawStringEnd text (quote + 1) (quote - (start + 1))
    (text.size - quote)).of_le (i := i) (by omega)
  simp [notBefore_ite, hend]

theorem notBefore_character : NotBefore i (character text i) := by
  unfold character
  extract_lets start closed c
  have hstart : i ≤ start := by grind
  have hclosed : ∀ j, NotBefore j (closed j) := by
    intro j
    simp [closed, notBefore_ite]
  have hescape := ((notBefore_escape text (start + 1)).bind hclosed).of_le (i := i) (by omega)
  have hplain := (hclosed (start + 2)).of_le (i := i) (by omega)
  simp only [notBefore_ite, notBefore_some, notBefore_none, hescape, hplain]
  grind

/-! ### Numbers -/

theorem le_foldl_max (ts : List String) (k best : Nat) :
    best ≤ ts.foldl (fun best t => max best (k + t.length)) best := by
  induction ts generalizing best with
  | nil => exact Nat.le_refl best
  | cons t ts ih => exact Nat.le_trans (Nat.le_max_left ..) (ih _)

theorem notBefore_integer : NotBefore i (integer text i) := by
  unfold integer
  extract_lets typed based decimal mark
  have htyped : ∀ j, j ≤ typed j := fun j => le_foldl_max ..
  have hbased : ∀ isDigit, NotBefore i (based isDigit) := by
    intro isDigit
    simp only [based, notBefore_ite, notBefore_some, notBefore_none]
    grind
  have hdecimal : NotBefore i decimal := by
    simp only [decimal, notBefore_ite, notBefore_some, notBefore_none]
    grind
  simp [notBefore_ite, hdecimal, (hbased _).or hdecimal]

theorem notBefore_float : NotBefore i (float text i) := by
  unfold float
  extract_lets isDigit typed exponent j c
  have htyped : ∀ k, k ≤ typed k := by
    intro k
    simp only [typed]
    grind
  have hexponent : ∀ k fraction, NotBefore k (exponent k fraction) := by
    intro k fraction
    simp only [exponent, notBefore_ite, notBefore_some, notBefore_none]
    grind
  have hj : i ≤ j := le_skipWhile ..
  have hfraction := (hexponent (skipWhile text isDigit (j + 1)) true).of_le (i := i) (by grind)
  simp [notBefore_ite, hfraction, (hexponent j false).of_le hj]

/-! ### The lexicon -/

theorem notBefore_interpreterLine : NotBefore i (interpreterLine text i) := by
  simp only [interpreterLine, notBefore_ite, notBefore_some, notBefore_none]
  grind

theorem notBefore_of_mem_classes {c : TokenClass} (hc : c ∈ classes) :
    NotBefore i (c.scan text i) := by
  simp only [classes, List.mem_cons, List.not_mem_nil, or_false] at hc
  rcases hc with rfl | rfl | rfl | rfl | rfl | rfl | rfl | rfl | rfl | rfl
  · exact notBefore_nonEmpty i _
  · exact notBefore_metavariable text i
  · exact notBefore_string text i
  · exact notBefore_rawString text i
  · exact notBefore_character text i
  · exact notBefore_integer text i
  · exact notBefore_float text i
  · exact notBefore_interpreterLine text i
  · exact notBefore_nonEmpty i _
  · simp [notBefore_ite]

theorem onward_lexicon : lexicon.Onward where
  scan _ hc text i := notBefore_of_mem_classes text i hc
  comment h := (commentAt_bounds h).imp_left Nat.le_of_lt
  context _ _ _ _ := trivial

end CodeNotes.Grammar.Rust
