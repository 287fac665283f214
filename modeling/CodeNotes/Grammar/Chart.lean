import CodeNotes.Grammar.Automaton
import CodeNotes.Grammar.Lexicon
import Std.Data.HashSet

/-!
# Recognition

The text is read token by token, and at each place the set of all partial matches of all rules is
kept: a partial match is a state of the automaton together with the place where its rule started.
The set is closed under starting the rules that can come next and ending the rules that are
complete.  The terminals on the edges out of the set are what the lexicon may look for.  So the text
is recognised exactly when some sequence of tokens it can be cut into is a match of the first rule.
-/

namespace CodeNotes.Grammar

/-- A state of the automaton, and the number of the place where its rule started. -/
abbrev Item := Nat × Nat

/-- What waits at a place for a rule to end, by rule. -/
abbrev Waiting := Std.HashMap Nat (List Item)

/-- The partial matches at one place. -/
structure Closure where
  seen : Std.HashSet (Nat × Nat) := ∅
  work : List Item := []
  waiting : Waiting := ∅
  /-- What each terminal would lead to. -/
  scans : Std.HashMap Nat (List Item) := ∅
  /-- The terminals of `scans`, last found first. -/
  wanted : List Nat := []
  /-- Whether the first rule is matched from the start of the text. -/
  complete : Bool := false

namespace Closure

/-- Adds a partial match unless it is there. -/
def add (c : Closure) (item : Item) : Closure :=
  if c.seen.contains item then c
  else { c with seen := c.seen.insert item, work := item :: c.work }

/-- Adds what follows from one edge of an item at the place numbered `here`. -/
def follow (a : Automaton) (here : Nat) (origin : Nat) (c : Closure) (edge : Label × Nat) :
    Closure :=
  match edge.1 with
  | .terminal t =>
    match c.scans[t]? with
    | some l => { c with scans := c.scans.insert t ((edge.2, origin) :: l) }
    | none => { c with scans := c.scans.insert t [(edge.2, origin)], wanted := t :: c.wanted }
  | .rule r =>
    match c.waiting[r]? with
    | some l => { c with waiting := c.waiting.insert r ((edge.2, origin) :: l) }
    | none =>
      let c := { c with waiting := c.waiting.insert r [(edge.2, origin)] }
      c.add (a.starts.getD r 0, here)

/-- Takes up one item. -/
def step (a : Automaton) (places : Array Waiting) (c : Closure) (item : Item) : Closure :=
  let state := a.states.getD item.1 ⟨[], none⟩
  let c := state.edges.foldl (follow a places.size item.2) c
  match state.ends with
  | none => c
  | some r =>
    let c := if r == 0 && item.2 == 0 then { c with complete := true } else c
    match places[item.2]? with
    | some waiting => (waiting.getD r []).foldl add c
    | none => c

/-- Takes up items until none is left.  No item is taken up twice, so the fuel is enough if it is
the number of possible items. -/
def saturate (a : Automaton) (places : Array Waiting) : Nat → Closure → Closure
  | 0, c => c
  | fuel + 1, c =>
    match c.work with
    | [] => c
    | item :: rest => saturate a places fuel (step a places { c with work := rest } item)

/-- All partial matches at the next place, from those that a token leads to. -/
def ofKernel (a : Automaton) (places : Array Waiting) (kernel : List Item) : Closure :=
  saturate a places ((a.states.size + 1) * (places.size + 2)) (kernel.foldl add {})

end Closure

/-- A place that a token leads to and that has not been looked at. -/
structure Pending (σ : Type) where
  offset : Nat
  /-- How many tokens without text were read at this offset. -/
  emptyTokens : Nat
  state : σ
  kernel : List Item
  /-- The leaves passed over on the way here, last first. -/
  leaves : List Leaf

namespace Pending

variable {σ : Type}

/-- Whether one place comes before another. -/
def before (p q : Pending σ) : Bool :=
  p.offset < q.offset || (p.offset == q.offset && p.emptyTokens < q.emptyTokens)

/-- Whether two places are the same. -/
def sameAs (p q : Pending σ) : Bool :=
  p.offset == q.offset && p.emptyTokens == q.emptyTokens

/-- Puts a place in its order, joining it with an equal one. -/
def insert (p : Pending σ) : List (Pending σ) → List (Pending σ)
  | [] => [p]
  | q :: rest =>
    if p.before q then p :: q :: rest
    else if p.sameAs q then { q with kernel := q.kernel ++ p.kernel } :: rest
    else q :: insert p rest

end Pending

/-- A place that has been looked at, with its number. -/
structure Visit (σ : Type) where
  number : Nat
  place : Pending σ
  closure : Closure

/-- The number and what is waiting of each place visited so far. -/
abbrev Trail (σ : Type) := List (Visit σ)

/-- Reads a text on from the pending places.  The result is the comments and other leaves in order
when the text is recognised, and the places visited, last first, otherwise. -/
def recognise {σ : Type} (a : Automaton) (lexicon : Lexicon σ) (text : Array Char) :
    Nat → Array Waiting → List (Pending σ) → Trail σ → Except (Trail σ) (List Leaf)
  | 0, _, _, trail => .error trail
  | _, _, [], trail => .error trail
  | fuel + 1, places, p :: rest, trail =>
    let c := Closure.ofKernel a places p.kernel
    let wanted := c.wanted.map fun t => a.terminals.getD t (.text "")
    let readings := (lexicon.splitWanted wanted).map fun w =>
      lexicon.readFrom w text (text.size + 1 - p.offset) p.offset p.state p.leaves
    match readings.find? (·.atEnd && c.complete) with
    | some reading => .ok reading.leaves.reverse
    | none =>
      let pending := readings.foldl
        (fun pending reading => reading.tokens.foldl
          (fun pending token =>
            match (a.terminalIndex[token.terminal]?).bind (c.scans[·]?) with
            | some kernel =>
              let emptyTokens := if token.span.stop == p.offset then p.emptyTokens + 1 else 0
              Pending.insert
                ⟨token.span.stop, emptyTokens, token.state, kernel, reading.leaves⟩ pending
            -- the context may find a token that nothing wants here
            | none => pending)
          pending)
        rest
      recognise a lexicon text fuel (places.push c.waiting) pending (⟨places.size, p, c⟩ :: trail)

/-- The place before a text.  A byte order mark at the very start is not part of the text. -/
def Automaton.start {σ : Type} (a : Automaton) (lexicon : Lexicon σ) (text : Array Char) :
    Pending σ :=
  ⟨if charAt text 0 == '\uFEFF' then 1 else 0, 0, lexicon.initial, [(a.starts.getD 0 0, 0)], []⟩

/-- A bound on the number of places of a text. -/
def placeLimit (text : Array Char) : Nat :=
  8 * text.size + 16

end CodeNotes.Grammar
