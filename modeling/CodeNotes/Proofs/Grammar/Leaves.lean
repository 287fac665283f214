import CodeNotes.Grammar.Repair
import CodeNotes.Proofs.Grammar.Scanners

/-!
# The leaves of a text

Comments and the other stretches that a grammar does not see are collected while a text is read, the
last one first.  In a lexicon that goes onward, they stand one behind the other within the text
(`Leaf.Laid`): what is read from one offset either is a token, or is one more leaf behind those
found before (`Lexicon.readFrom_step`), so all places that are pending hold such leaves, and so does
the place where the text ends (`Automaton.read_ordered`).
-/

namespace CodeNotes

/-- Leaves, the last one first, that stand one behind the other, up to an offset and within a text
of the given size. -/
structure Leaf.Laid (size offset : Nat) (leaves : List Leaf) : Prop where
  apart : leaves.Pairwise fun later earlier => earlier.span.stop ≤ later.span.start
  upto : ∀ l ∈ leaves, l.span.stop ≤ offset
  within : ∀ l ∈ leaves, l.span.stop ≤ size

namespace Leaf.Laid

variable {size offset offset' : Nat} {leaves : List Leaf}

theorem nil : Laid size offset [] :=
  ⟨List.Pairwise.nil, nofun, nofun⟩

theorem mono (h : Laid size offset leaves) (hle : offset ≤ offset') : Laid size offset' leaves :=
  { h with upto := fun l hl => Nat.le_trans (h.upto l hl) hle }

theorem cons {l : Leaf} (h : Laid size offset leaves) (hstart : offset ≤ l.span.start)
    (hspan : l.span.start ≤ l.span.stop) (hstop : l.span.stop ≤ size) :
    Laid size l.span.stop (l :: leaves) where
  apart := List.pairwise_cons.mpr ⟨fun k hk => Nat.le_trans (h.upto k hk) hstart, h.apart⟩
  upto := List.forall_mem_cons.mpr
    ⟨Nat.le_refl _, (h.mono (Nat.le_trans hstart hspan)).upto⟩
  within := List.forall_mem_cons.mpr ⟨hstop, h.within⟩

end Leaf.Laid

namespace Grammar

open Leaf (Laid)

/-! ### Choosing a token -/

theorem Candidate.mem_of_best? {l : List Candidate} {c : Candidate} (h : best? l = some c) :
    c ∈ l := by
  have hnone : (none : Option Candidate) = some c → c ∈ l := nofun
  rw [best?] at h
  refine List.foldlRecOn (motive := fun best => best = some c → c ∈ l) l _ hnone ?_ h
  intro best hbest d hd hc
  split at hc
  · exact Option.some.inj hc ▸ hd
  · split at hc
    · exact Option.some.inj hc ▸ hd
    · exact hbest hc

namespace Lexicon

variable {σ : Type} {lexicon : Lexicon σ} {wanted : List Terminal} {text : Array Char} {i : Nat}

theorem Onward.le_of_mem_candidates (h : lexicon.Onward) {adjacent : Bool} {c : Candidate}
    (hc : c ∈ lexicon.candidates wanted text i adjacent) : i ≤ c.stop := by
  obtain ⟨t, -, ht⟩ := List.mem_filterMap.mp hc
  split at ht
  · grind
  · split at ht
    · next found hfound =>
      split at ht
      · nomatch ht
      · obtain ⟨stop, hstop, rfl⟩ := Option.map_eq_some_iff.mp ht
        exact h.scan found (List.mem_of_find?_eq_some hfound) text i stop hstop
    · nomatch ht

theorem le_of_mem_shorter {found c : Candidate} (hc : c ∈ lexicon.shorter wanted text i found) :
    i ≤ c.stop := by
  unfold shorter at hc
  grind

/-- Neither the candidate that is taken nor one that may be meant instead ends before the offset. -/
theorem Onward.le_of_best? (h : lexicon.Onward) {adjacent : Bool} {c : Candidate}
    (hc : Candidate.best? (lexicon.candidates wanted text i adjacent) = some c) :
    ∀ d ∈ c :: lexicon.shorter wanted text i c, i ≤ d.stop := by
  refine List.forall_mem_cons.mpr ⟨?_, fun d hd => le_of_mem_shorter hd⟩
  exact h.le_of_mem_candidates (Candidate.mem_of_best? hc)

/-- What one round of reading from an offset comes to: tokens that do not end before the offset, or
one more leaf, which starts from the offset on, and what is read behind it. -/
inductive Round (lexicon : Lexicon σ) (wanted : List Terminal) (text : Array Char) (fuel i : Nat)
    (state : σ) (leaves : List Leaf) : Reading σ → Prop
  | tokens {tokens : List (Token σ)} {atEnd : Bool} (h : ∀ t ∈ tokens, i ≤ t.span.stop) :
    Round lexicon wanted text fuel i state leaves ⟨tokens, leaves, atEnd⟩
  | leaf {l : Leaf} (hstart : i ≤ l.span.start) (hspan : l.span.start ≤ l.span.stop)
      (hstop : l.span.stop ≤ text.size) :
    Round lexicon wanted text fuel i state leaves
      (lexicon.readFrom wanted text fuel l.span.stop state (l :: leaves))

theorem readFrom_step (h : lexicon.Onward) (fuel : Nat) (state : σ) (leaves : List Leaf) :
    Round lexicon wanted text fuel i state leaves
      (lexicon.readFrom wanted text (fuel + 1) i state leaves) := by
  have hcontext := h.context wanted.contains text i state
  rw [readFrom]
  -- The context is asked first; only where it finds nothing are the classes and comments tried.
  split
  · next name stop state' hfound =>
    rw [hfound] at hcontext
    exact .tokens (List.forall_mem_singleton.mpr hcontext)
  · next kind stop hfound =>
    rw [hfound] at hcontext
    exact .leaf (l := ⟨kind, ⟨i, stop⟩⟩) (Nat.le_refl i) hcontext.1 hcontext.2
  · extract_lets j close far token apart
    have hj : i ≤ j := le_skipWhile ..
    have hclose : ∀ c, close = some c →
        Round lexicon wanted text fuel i state leaves ⟨[token i c], leaves, false⟩ := by
      intro c hc
      exact .tokens (List.forall_mem_singleton.mpr (h.le_of_best? hc c List.mem_cons_self))
    have hapart : ∀ c, far = some c →
        Round lexicon wanted text fuel i state leaves (apart c) := by
      intro c hc
      exact .tokens (List.forall_mem_map.mpr fun d hd => Nat.le_trans hj (h.le_of_best? hc d hd))
    have hfar : Round lexicon wanted text fuel i state leaves
        (far.elim ⟨[], leaves, false⟩ apart) := by
      cases hc : far with
      | none => exact .tokens nofun
      | some c => exact hapart c hc
    have heither : ∀ c, close = some c → ∀ beaten : Bool,
        Round lexicon wanted text fuel i state leaves
          (if beaten then far.elim ⟨[], leaves, false⟩ apart
            else ⟨[token i c], leaves, false⟩) := by
      intro c hc beaten
      cases beaten with
      | false => exact hclose c hc
      | true => exact hfar
    have hcomment : ∀ kind stop, lexicon.comment text j = some (kind, stop) →
        Round lexicon wanted text fuel i state leaves
          (lexicon.readFrom wanted text fuel stop state (⟨kind, ⟨j, stop⟩⟩ :: leaves)) := by
      intro kind stop hc
      exact .leaf (l := ⟨kind, ⟨j, stop⟩⟩) hj (h.comment hc).1 (h.comment hc).2
    -- Which of these it comes to depends on what stands right at the offset.
    cases hc : close with
    | some c =>
      dsimp only
      split
      · next kind stop hfound =>
        split
        · exact hcomment kind stop (by grind)
        · exact heither c hc _
      · exact heither c hc _
    | none =>
      dsimp only
      split
      · next kind stop c hfound hc =>
        split
        · exact hcomment kind stop hfound
        · exact hapart c hc
      · next kind stop hfound _ => exact hcomment kind stop hfound
      · next c _ hc => exact hapart c hc
      · exact .tokens nofun

/-- What is read from an offset: leaves one behind the other, and tokens that do not end before the
last of them. -/
theorem readFrom_laid (h : lexicon.Onward) (fuel : Nat) (state : σ) {leaves : List Leaf}
    (hleaves : Laid text.size i leaves) {reading : Reading σ}
    (hreading : lexicon.readFrom wanted text fuel i state leaves = reading) :
    ∃ offset, Laid text.size offset reading.leaves ∧
      ∀ t ∈ reading.tokens, offset ≤ t.span.stop := by
  induction fuel generalizing i leaves with
  | zero => exact ⟨i, hreading ▸ hleaves, hreading ▸ nofun⟩
  | succ fuel ih =>
    have hround : Round lexicon wanted text fuel i state leaves reading :=
      hreading ▸ readFrom_step h fuel state leaves
    cases hround with
    | tokens htokens => exact ⟨i, hleaves, htokens⟩
    | leaf hstart hspan hstop => exact ih (hleaves.cons hstart hspan hstop) rfl

end Lexicon

/-! ### Pending places -/

variable {σ : Type} {lexicon : Lexicon σ} {text : Array Char}

/-- Places behind leaves that stand one behind the other. -/
def Pending.AllLaid (size : Nat) (pending : List (Pending σ)) : Prop :=
  ∀ p ∈ pending, Laid size p.offset p.leaves

theorem Pending.AllLaid.insert {size : Nat} {p : Pending σ} {pending : List (Pending σ)}
    (h : AllLaid size pending) (hp : Laid size p.offset p.leaves) :
    AllLaid size (p.insert pending) := by
  induction pending with
  | nil => exact List.forall_mem_singleton.mpr hp
  | cons q rest ih =>
    obtain ⟨hq, hrest⟩ := List.forall_mem_cons.mp h
    rw [Pending.insert]
    split
    · exact List.forall_mem_cons.mpr ⟨hp, h⟩
    · split
      · exact List.forall_mem_cons.mpr ⟨hq, hrest⟩
      · exact List.forall_mem_cons.mpr ⟨hq, ih hrest⟩

/-- **The leaves of a text that is recognised** stand one behind the other within it. -/
theorem recognise_ordered (h : lexicon.Onward) (a : Automaton) {fuel : Nat} {places : Array Waiting}
    {pending : List (Pending σ)} {trail : Trail σ} {leaves : List Leaf}
    (hpending : Pending.AllLaid text.size pending)
    (hok : recognise a lexicon text fuel places pending trail = .ok leaves) :
    leaves.Pairwise (fun l l' => l.span.stop ≤ l'.span.start) ∧
      ∀ l ∈ leaves, l.span.stop ≤ text.size := by
  induction fuel generalizing places pending trail with
  | zero => nomatch hok
  | succ fuel ih =>
    cases pending with
    | nil => nomatch hok
    | cons p rest =>
      obtain ⟨hp, hrest⟩ := List.forall_mem_cons.mp hpending
      unfold recognise at hok
      extract_lets c wanted readings pending at hok
      have hreading : ∀ r ∈ readings, ∃ offset, Laid text.size offset r.leaves ∧
          ∀ t ∈ r.tokens, offset ≤ t.span.stop := by
        intro r hr
        obtain ⟨w, -, hw⟩ := List.mem_map.mp hr
        exact Lexicon.readFrom_laid h _ p.state hp hw
      split at hok
      · next r hr =>
        obtain ⟨offset, hlaid, -⟩ := hreading r (List.mem_of_find?_eq_some hr)
        obtain rfl := Except.ok.inj hok
        exact ⟨List.pairwise_reverse.mpr hlaid.apart,
          fun l hl => hlaid.within l (List.mem_reverse.mp hl)⟩
      · refine ih ?_ hok
        -- Each token of each reading adds a place behind the leaves of its reading.
        refine List.foldlRecOn (motive := Pending.AllLaid text.size) readings _ hrest
          fun pending hpending r hr => ?_
        refine List.foldlRecOn (motive := Pending.AllLaid text.size) r.tokens _ hpending
          fun pending hpending t ht => ?_
        obtain ⟨offset, hlaid, htokens⟩ := hreading r hr
        split
        · exact hpending.insert (hlaid.mono (htokens t ht))
        · exact hpending

/-- The same for a text that is read from its start. -/
theorem Automaton.read_ordered (h : lexicon.Onward) (a : Automaton) {leaves : List Leaf}
    (hok : a.read lexicon text = .ok leaves) :
    leaves.Pairwise (fun l l' => l.span.stop ≤ l'.span.start) ∧
      ∀ l ∈ leaves, l.span.stop ≤ text.size := by
  unfold read at hok
  extract_lets start at hok
  split at hok
  · next found hfound =>
    obtain rfl := Except.ok.inj hok
    exact recognise_ordered h a (List.forall_mem_singleton.mpr .nil) hfound
  · nomatch hok

end Grammar

end CodeNotes
