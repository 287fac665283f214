import CodeNotes.Grammar.Chart

/-!
# Where a text goes wrong

A text that is not recognised is repaired, and the first repair says where the fault is.  There are
two kinds of repair.  A stretch of the text can be *dropped*: reading goes back to an earlier place,
passes over some tokens, and goes on there with the next one.  Or a single token can be *supplied*
where the grammar wants one and could go on with the token at hand after it.

Repairs have a price: each dropped token, character and line and each supplied token is paid for,
and so is the repair itself.  The cheapest way to the end of the text is taken, and of several the
one whose first repair comes last.
-/

namespace CodeNotes.Grammar

/-- What repairs cost. -/
structure Prices where
  repair : Nat
  supplied : Nat
  droppedToken : Nat
  droppedChar : Nat
  droppedLine : Nat

/-- The prices in use. -/
def prices : Prices := ⟨500, 110, 100, 1, 30⟩

/-- A repair of a text: what it costs and where the first fault is. -/
structure Repair where
  cost : Nat
  fault : Nat

namespace Repair

/-- The better of two repairs. -/
def better (a b : Repair) : Repair :=
  if b.cost < a.cost || (b.cost == a.cost && a.fault < b.fault) then b else a

/-- The best of several repairs. -/
def best? : List Repair → Option Repair
  | [] => none
  | r :: rs => some (rs.foldl better r)

end Repair

/-! ### Tokens out of context -/

/-- A piece of text read out of context, and the terminal it is, if any. -/
structure Word where
  span : Span
  terminal : Option Terminal

namespace Lexicon

variable {σ : Type}

/-- The offset of what follows the white space and the comments at an offset. -/
def afterTrivia (lexicon : Lexicon σ) (text : Array Char) : Nat → Nat → Nat
  | 0, i => i
  | fuel + 1, i =>
    let j := skipWhile text lexicon.isSpace i
    match lexicon.comment text j with
    | some (_, stop) => if stop > j then afterTrivia lexicon text fuel stop else j
    | none => j

/-- The token at an offset when any terminal may be meant. -/
def anyToken (lexicon : Lexicon σ) (a : Automaton) (text : Array Char) (i : Nat) :
    Option Candidate :=
  Candidate.best? (lexicon.candidates a.terminals.toList text i false)

/-- The words from an offset on when any terminal may be meant.  A character that starts no token
is a piece of its own, without terminal. -/
def wordsFrom (lexicon : Lexicon σ) (a : Automaton) (text : Array Char) :
    Nat → Nat → List Word
  | 0, _ => []
  | fuel + 1, i =>
    let j := lexicon.afterTrivia text (text.size + 1 - i) i
    if j ≥ text.size then []
    else
      match lexicon.anyToken a text j with
      | some c =>
        let stop := max c.stop (j + 1)
        ⟨⟨j, stop⟩, some c.terminal⟩ :: wordsFrom lexicon a text fuel stop
      | none => ⟨⟨j, j + 1⟩, none⟩ :: wordsFrom lexicon a text fuel (j + 1)

end Lexicon

/-! ### Repairs -/

namespace Visit

variable {σ : Type}

/-- What a terminal leads to from a place. -/
def kernelAfter (a : Automaton) (v : Visit σ) (t : Terminal) : Option (List Item) :=
  (a.terminalIndex[t]?).bind (v.closure.scans[·]?)

/-- Whether the text can go on with a word, or end, at a place. -/
def accepts (a : Automaton) (v : Visit σ) : Option Word → Bool
  | some word => (word.terminal.bind (v.kernelAfter a)).isSome
  | none => v.closure.complete

end Visit

/-- The cost of dropping the text between two offsets, in which so many tokens stand. -/
def dropCost (text : Array Char) (tokens start stop : Nat) : Nat :=
  let lines := ((List.range (stop - start)).filter fun d => charAt text (start + d) == '\n').length
  prices.repair + prices.droppedToken * tokens + prices.droppedChar * (stop - start) +
    prices.droppedLine * lines

section

variable {σ : Type} (a : Automaton) (lexicon : Lexicon σ) (text : Array Char)

/-- What is waiting at the places up to a visit. -/
def Visit.places (trail : Trail σ) (v : Visit σ) : Array Waiting :=
  ((trail.filter fun u => u.number ≤ v.number).map fun u => u.closure.waiting).reverse.toArray

/-- Reads on from a visited place with a kernel after it. -/
def resume (trail : Trail σ) (v : Visit σ) (stop : Nat) (kernel : List Item) :
    Except (Trail σ) (List Leaf) :=
  recognise a lexicon text (placeLimit text) (v.places trail)
    [⟨stop, 0, v.place.state, kernel, []⟩] (trail.filter fun u => u.number ≤ v.number)

/-- The cheapest repair of a text that is not recognised, from the places visited, with a bound on
the number of repairs. -/
def repair : Nat → Trail σ → Option Repair
  | 0, _ => none
  | _, [] => none
  | fuel + 1, trail@(last :: _) =>
    let words := lexicon.wordsFrom a text (text.size + 1) last.place.offset
    let finish (cost fault : Nat) (rest : Except (Trail σ) (List Leaf)) : Option Repair :=
      match rest with
      | .ok _ => some ⟨cost, fault⟩
      | .error trail => (repair fuel trail).map fun r => ⟨cost + r.cost, fault⟩
    -- goes on with word number `skipped`, or the end, from the last place that accepts it
    let dropping (skipped : Nat) : Option Repair :=
      let next := words[skipped]?
      (trail.find? fun v => v.accepts a next).bind fun v =>
        let start := lexicon.afterTrivia text (text.size + 1) v.place.offset
        let stop :=
          if skipped == 0 then max start last.place.offset
          else ((words[skipped - 1]?).map (·.span.stop)).getD text.size
        let passed := trail.takeWhile fun u => u.number > v.number
        let cost := dropCost text (passed.length + skipped) start stop
        match next with
        | none => some ⟨cost, start⟩
        | some word =>
          (word.terminal.bind (v.kernelAfter a)).bind fun kernel =>
            finish cost start (resume a lexicon text trail v word.span.stop kernel)
    -- supplies a token after which the next word can follow
    let supplying : Option Repair :=
      let places := last.places trail
      last.closure.wanted.reverse.findSome? fun index =>
        (last.closure.scans[index]?).bind fun kernel =>
          let ends := kernel.any fun item => (a.states.getD item.1 ⟨[], none⟩).ends.isSome
          let v : Visit σ :=
            ⟨places.size, { last.place with kernel }, Closure.ofKernel a places kernel⟩
          if ends && v.accepts a words[0]? then
            finish (prices.repair + prices.supplied) last.place.offset
              (recognise a lexicon text (placeLimit text) places [v.place] trail)
          else none
    Repair.best?
      ([dropping 0, dropping 1, dropping 2, dropping words.length, supplying].filterMap id)

end

/-- Reads a whole text with a grammar: the leaves in order, or the offset of the first fault. -/
def Automaton.read {σ : Type} (a : Automaton) (lexicon : Lexicon σ) (text : Array Char) :
    Except Nat (List Leaf) :=
  let start := a.start lexicon text
  match recognise a lexicon text (placeLimit text) #[] [start] [] with
  | .ok leaves => .ok leaves
  | .error trail => .error (((repair a lexicon text 2 trail).map Repair.fault).getD start.offset)

end CodeNotes.Grammar
