import CodeNotes.Pattern.Engine

/-!
# What the standard engine refuses

Patterns that are compared as texts are put together however many they are (`refusal?_of_fixed`).  A
pattern that is made into an automaton with others takes room for each copy of it, so it cannot be
given arbitrarily often (`refusal?_replicate`): which patterns are refused is not decided by their
set.
-/

namespace CodeNotes.Ignore.Automaton

/-- A pattern goes into the automaton of several patterns. -/
def Shares (ts : List Token) : Prop :=
  isFront ts = false ∧ isBack ts = false ∧ endsInExtension ts = false

instance (ts : List Token) : Decidable (Shares ts) :=
  inferInstanceAs (Decidable (_ ∧ _))

theorem fault?_nil : fault? [] = none := by
  decide

/-- Texts are never refused. -/
theorem refusal?_of_fixed {patterns : List (List Token)}
    (h : ∀ ts ∈ patterns, isFront ts = true ∨ isBack ts = true) : refusal? patterns = none := by
  have hnone : (patterns.filter fun ts => !isFront ts && !isBack ts) = [] := by
    rw [List.filter_eq_nil_iff]
    intro ts hts
    rcases h ts hts with hfront | hback
    · simp [hfront]
    · simp [hback]
  rw [refusal?, hnone]
  exact fault?_nil

/-- Patterns that go into one automaton are refused iff it cannot be made. -/
theorem refusal?_of_shares {patterns : List (List Token)} (h : ∀ ts ∈ patterns, Shares ts) :
    refusal? patterns = fault? patterns := by
  have hall : (patterns.filter fun ts => !isFront ts && !isBack ts) = patterns := by
    rw [List.filter_eq_self]
    intro ts hts
    obtain ⟨hfront, hback, -⟩ := h ts hts
    simp [hfront, hback]
  have halone : patterns.filter endsInExtension = [] := by
    rw [List.filter_eq_nil_iff]
    intro ts hts
    simp [(h ts hts).2.2]
  have htogether : patterns.filter (not ∘ endsInExtension) = patterns := by
    rw [List.filter_eq_self]
    intro ts hts
    simp [(h ts hts).2.2]
  rw [refusal?, hall, List.partition_eq_filter_filter, halone, htogether]
  rfl

/-! ### Room -/

@[simp]
theorem roomOfPatterns_nil : roomOfPatterns [] = 0 := rfl

theorem roomOfPatterns_cons (ts : List Token) (patterns : List (List Token)) :
    roomOfPatterns (ts :: patterns) = room (normal ts) + 160 + roomOfPatterns patterns := rfl

/-- Each copy of a pattern takes room of its own. -/
theorem roomOfPatterns_replicate (n : Nat) (ts : List Token) :
    roomOfPatterns (List.replicate n ts) = n * (room (normal ts) + 160) := by
  induction n with
  | zero => rw [List.replicate_zero, roomOfPatterns_nil, Nat.zero_mul]
  | succ n ih =>
    rw [List.replicate_succ, roomOfPatterns_cons, ih, Nat.succ_mul, Nat.add_comm]

theorem le_totalRoom_replicate (n : Nat) (ts : List Token) :
    n * (room (normal ts) + 160) ≤ totalRoom (List.replicate n ts) := by
  rw [totalRoom, roomOfPatterns_replicate]
  omega

/-- **A pattern can be given too often**, though one copy of it is not refused. -/
theorem refusal?_replicate {ts : List Token} {n : Nat} (h : Shares ts)
    (hnesting : nesting (normal ts) + 1 ≤ nestingLimit)
    (hroom : roomLimit < n * (room (normal ts) + 160)) :
    refusal? (List.replicate n ts) = some "error building NFA" := by
  -- No copy is nested too deeply, so it is the room that decides.
  have hflat : (List.replicate n ts).findIdx? (fun ts => nesting (normal ts) + 1 > nestingLimit) =
      none := by
    rw [List.findIdx?_eq_none_iff]
    intro x hx
    rw [List.eq_of_mem_replicate hx]
    simpa using hnesting
  rw [refusal?_of_shares fun x hx => List.eq_of_mem_replicate hx ▸ h, fault?, hflat]
  exact if_pos (Nat.lt_of_lt_of_le hroom (le_totalRoom_replicate n ts))

end CodeNotes.Ignore.Automaton
