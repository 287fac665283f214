import CodeNotes.Grammar.Lexicon
import Mathlib.Data.List.TakeWhile
import Mathlib.Order.Basic

/-!
# Scanners

What a scanner finds at an offset does not end before that offset (`NotBefore`).  Scanners are made
of tests, choices and other scanners, each of which passes this on, so for a scanner it can be read
off its definition.  The scanners of single languages are looked at in modules of their own.

A comment also ends within the text, and is not empty (`commentAt_bounds`).  What a lexicon finds
altogether is put together in `Lexicon.Onward`.
-/

namespace CodeNotes

/-! ### The length of a comment -/

namespace Trivia

theorem lengthUntil_le (stop : Char → Bool) (cs : List Char) : lengthUntil stop cs ≤ cs.length :=
  (List.takeWhile_sublist _).length_le

theorem wholeLineLength_le (cs : List Char) : wholeLineLength cs ≤ cs.length := by
  rw [wholeLineLength]
  split
  · assumption
  · exact lengthUntil_le _ cs

theorem flatBlockLength_le {cs : List Char} {n : Nat} (h : flatBlockLength cs = some n) :
    n ≤ cs.length := by
  fun_induction flatBlockLength cs generalizing n with
  | case1 => nomatch h
  | case2 cs =>
    obtain rfl := Option.some.inj h
    simp
  | case3 => nomatch h
  | case4 c cs _ _ ih =>
    obtain ⟨m, hm, rfl⟩ := Option.map_eq_some_iff.mp h
    exact Nat.succ_le_succ (ih hm)

theorem nestedBlockLength_le {depth : Nat} {cs : List Char} {n : Nat}
    (h : nestedBlockLength depth cs = some n) : n ≤ cs.length := by
  fun_induction nestedBlockLength depth cs generalizing n with
  | case1 => nomatch h
  | case2 depth cs ih =>
    obtain ⟨m, hm, rfl⟩ := Option.map_eq_some_iff.mp h
    have := ih hm
    simp only [List.length_cons]
    omega
  | case3 cs =>
    obtain rfl := Option.some.inj h
    simp
  | case4 cs =>
    obtain rfl := Option.some.inj h
    simp
  | case5 cs d _ ih =>
    obtain ⟨m, hm, rfl⟩ := Option.map_eq_some_iff.mp h
    have := ih hm
    simp only [List.length_cons]
    omega
  | case6 depth c cs _ _ ih =>
    obtain ⟨m, hm, rfl⟩ := Option.map_eq_some_iff.mp h
    exact Nat.succ_le_succ (ih hm)

theorem scriptComment?_length {cs : List Char} {kind : String} {n : Nat}
    (h : scriptComment? cs = some (kind, n)) : 0 < n ∧ n ≤ cs.length := by
  fun_cases scriptComment? cs with
  | case1 cs => grind [scriptComment?, lengthUntil_le]
  | case2 cs => grind [scriptComment?, → flatBlockLength_le, Option.map_eq_some_iff]
  | case3 => grind [scriptComment?]

theorem rustComment?_length {cs : List Char} {kind : String} {n : Nat}
    (h : rustComment? cs = some (kind, n)) : 0 < n ∧ n ≤ cs.length := by
  fun_cases rustComment? cs with
  | case1 cs => grind [rustComment?, lengthUntil_le]
  | case2 cs => grind [rustComment?, wholeLineLength_le]
  | case3 cs => grind [rustComment?, wholeLineLength_le]
  | case4 cs => grind [rustComment?, lengthUntil_le]
  | case5 cs => grind [rustComment?, → nestedBlockLength_le, Option.map_eq_some_iff]
  | case6 => grind [rustComment?]

theorem pythonComment?_length {cs : List Char} {kind : String} {n : Nat}
    (h : pythonComment? cs = some (kind, n)) : 0 < n ∧ n ≤ cs.length := by
  fun_cases pythonComment? cs with
  | case1 cs => grind [pythonComment?, lengthUntil_le]
  | case2 => grind [pythonComment?]

/-- **A comment is not empty and not longer than the text it stands in.** -/
theorem comment?_length {language : Language} {cs : List Char} {kind : String} {n : Nat}
    (h : comment? language cs = some (kind, n)) : 0 < n ∧ n ≤ cs.length := by
  cases language with
  | javaScript | typeScript | tsx => exact scriptComment?_length h
  | rust => exact rustComment?_length h
  | python => exact pythonComment?_length h

end Trivia

namespace Grammar

/-! ### Characters at offsets -/

theorem le_skipWhile (text : Array Char) (p : Char → Bool) (i : Nat) :
    i ≤ skipWhile text p i := by
  fun_induction skipWhile text p i with
  | case1 i _ _ ih => exact Nat.le_of_succ_le ih
  | case2 => exact Nat.le_refl _
  | case3 => exact Nat.le_refl _

grind_pattern le_skipWhile => skipWhile text p i

theorem skipWhile_le_size {text : Array Char} {p : Char → Bool} {i : Nat} (hi : i ≤ text.size) :
    skipWhile text p i ≤ text.size := by
  fun_induction skipWhile text p i with
  | case1 i h _ ih => exact ih h
  | case2 => exact hi
  | case3 => exact hi

/-- What stands behind the end is read as NUL, so any other character stands in the text. -/
theorem lt_size_of_charAt {text : Array Char} {i : Nat} (h : charAt text i ≠ '\x00') :
    i < text.size := by
  by_contra hi
  exact h (by rw [charAt, Array.getD, dif_neg hi])

theorem size_le_of_standsAt {text : Array Char} {c : Char} {cs : List Char} {i : Nat}
    (h : standsAt text (c :: cs) i = true) : i + (c :: cs).length ≤ text.size := by
  induction cs generalizing c i with
  | nil =>
    rw [standsAt, Bool.and_eq_true, Bool.and_eq_true, decide_eq_true_eq] at h
    exact h.1.1
  | cons d cs ih =>
    rw [standsAt, Bool.and_eq_true] at h
    have hrest := ih h.2
    simp only [List.length_cons] at hrest ⊢
    omega

/-- The comment at an offset ends behind it and within the text. -/
theorem commentAt_bounds {language : Language} {opener : Char} {text : Array Char} {i stop : Nat}
    {kind : String} (h : commentAt language opener text i = some (kind, stop)) :
    i < stop ∧ stop ≤ text.size := by
  have hbefore : ∀ {k : Nat} {found : String × Nat},
      ((Trivia.comment? language (text.extract i k).toList).map fun p => (p.1, i + p.2))
        = some found → i < found.2 ∧ found.2 ≤ text.size := by
    intro k found hfound
    obtain ⟨⟨kind, n⟩, hn, rfl⟩ := Option.map_eq_some_iff.mp hfound
    obtain ⟨hpos, hle⟩ := Trivia.comment?_length hn
    rw [Array.length_toList, Array.size_extract] at hle
    refine ⟨Nat.lt_add_of_pos_right hpos, ?_⟩
    show i + n ≤ text.size
    omega
  rw [commentAt] at h
  split at h
  · split at h
    · next found hfound =>
      obtain rfl := Option.some.inj h
      exact hbefore hfound
    · exact hbefore h
  · cases h

/-! ### What is found from an offset on -/

/-- What is found, if anything, does not end before an offset. -/
def NotBefore (i : Nat) (found : Option Nat) : Prop :=
  ∀ j, found = some j → i ≤ j

@[simp]
theorem notBefore_none (i : Nat) : NotBefore i none := nofun

@[simp]
theorem notBefore_some {i j : Nat} : NotBefore i (some j) ↔ i ≤ j :=
  ⟨fun h => h j rfl, fun h _ hj => Option.some.inj hj ▸ h⟩

theorem notBefore_ite {i : Nat} {c : Prop} [Decidable c] {a b : Option Nat} :
    NotBefore i (if c then a else b) ↔ (c → NotBefore i a) ∧ (¬ c → NotBefore i b) := by
  split <;> simp [*]

namespace NotBefore

variable {i j : Nat} {found other : Option Nat}

theorem of_le (hij : i ≤ j) (h : NotBefore j found) : NotBefore i found :=
  fun k hk => Nat.le_trans hij (h k hk)

theorem map (h : NotBefore i found) {f : Nat → Nat} (hf : ∀ k, k ≤ f k) :
    NotBefore i (found.map f) := by
  cases found with
  | none => exact notBefore_none i
  | some k => exact notBefore_some.mpr (Nat.le_trans (notBefore_some.mp h) (hf k))

theorem bind (h : NotBefore i found) {f : Nat → Option Nat} (hf : ∀ k, NotBefore k (f k)) :
    NotBefore i (found.bind f) := by
  cases found with
  | none => exact notBefore_none i
  | some k => exact (hf k).of_le (notBefore_some.mp h)

theorem or (h : NotBefore i found) (h' : NotBefore i other) : NotBefore i (found.or other) := by
  cases found with
  | none => exact h'
  | some k => exact h

theorem getD (h : NotBefore i found) (hj : i ≤ j) : i ≤ found.getD j := by
  cases found with
  | none => exact hj
  | some k => exact notBefore_some.mp h

end NotBefore

/-- What the context finds at an offset of a text of the given size does not end before the offset,
and what the grammar does not see also ends within the text. -/
def Found.Onward {σ : Type} (size i : Nat) : Found σ → Prop
  | .nothing => True
  | .token _ stop _ => i ≤ stop
  | .aside _ stop => i ≤ stop ∧ stop ≤ size

/-- A lexicon in which nothing ends before it starts, and in which what the grammar does not see
ends within the text. -/
structure Lexicon.Onward {σ : Type} (lexicon : Lexicon σ) : Prop where
  scan : ∀ c ∈ lexicon.classes, ∀ text i, NotBefore i (c.scan text i)
  comment : ∀ {text i kind stop}, lexicon.comment text i = some (kind, stop) →
    i ≤ stop ∧ stop ≤ text.size
  context : ∀ wanted text i state, (lexicon.context wanted text i state).Onward text.size i

end Grammar

end CodeNotes
