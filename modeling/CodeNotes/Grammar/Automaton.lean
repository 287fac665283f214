import CodeNotes.Grammar.Basic
import Std.Data.HashMap

/-!
# Rules as automata

Each rule is turned into a small automaton whose edges are labelled with terminals and rules, and
the automata of all rules share one numbering of states.  Steps that read nothing are folded away,
so a state of the result lists everything that can come next and says whether its rule may end
there.
-/

namespace CodeNotes.Grammar

/-- The label of an edge: a terminal or a rule, by number. -/
inductive Label where
  | terminal (index : Nat)
  | rule (index : Nat)
deriving DecidableEq, Repr

/-- A state: what can come next, and the rule that may end here. -/
structure State where
  edges : List (Label × Nat)
  ends : Option Nat
deriving Inhabited

/-- The automata of all rules of a grammar. -/
structure Automaton where
  terminals : Array Terminal
  terminalIndex : Std.HashMap Terminal Nat
  states : Array State
  /-- The state in which each rule starts. -/
  starts : Array Nat

/-- An automaton under construction: `moves` holds the labelled edges and `silent` the edges that
read nothing. -/
structure Draft where
  moves : Array (List (Label × Nat)) := #[]
  silent : Array (List Nat) := #[]

namespace Draft

/-- Adds a state. -/
def fresh (d : Draft) : Nat × Draft :=
  (d.moves.size, ⟨d.moves.push [], d.silent.push []⟩)

/-- Adds a labelled edge. -/
def move (d : Draft) (source : Nat) (label : Label) (target : Nat) : Draft :=
  { d with moves := d.moves.modify source ((label, target) :: ·) }

/-- Adds an edge that reads nothing. -/
def skip (d : Draft) (source target : Nat) : Draft :=
  { d with silent := d.silent.modify source (target :: ·) }

/-- Adds what `body` matches from the state `source` on, and gives the state it leads to. -/
def add (terminals : Std.HashMap Terminal Nat) (rules : Std.HashMap String Nat) :
    Body → Nat → Draft → Nat × Draft
  | .done, source, d => (source, d)
  | .terminal t, source, d =>
    let (target, d) := d.fresh
    match terminals[t]? with
    | some i => (target, d.move source (.terminal i) target)
    | none => (target, d)
  | .rule name, source, d =>
    let (target, d) := d.fresh
    match rules[name]? with
    | some i => (target, d.move source (.rule i) target)
    | none => (target, d)
  | .both first second, source, d =>
    let (middle, d) := add terminals rules first source d
    add terminals rules second middle d
  | .either left right, source, d =>
    -- each side starts in a state of its own, so that a loop in one is not entered from the other
    let (l, d) := d.fresh
    let (r, d) := d.fresh
    let (leftEnd, d) := add terminals rules left l d
    let (rightEnd, d) := add terminals rules right r d
    let (target, d) := d.fresh
    (target, (((d.skip source l).skip source r).skip leftEnd target).skip rightEnd target)
  | .many item, source, d =>
    let (loop, d) := d.fresh
    let (itemEnd, d) := add terminals rules item loop d
    let (target, d) := d.fresh
    (target, ((d.skip source loop).skip itemEnd loop).skip loop target)

/-- The states reachable without reading, visited depth first. -/
def reach (silent : Array (List Nat)) : Nat → List Nat → List Nat → List Nat
  | 0, _, seen => seen
  | _, [], seen => seen
  | fuel + 1, s :: rest, seen =>
    if seen.contains s then reach silent fuel rest seen
    else reach silent fuel (silent.getD s [] ++ rest) (s :: seen)

end Draft

/-- The terminals of a body, left to right. -/
def Body.terminals : Body → List Terminal
  | .done => []
  | .terminal t => [t]
  | .rule _ => []
  | .both a b => a.terminals ++ b.terminals
  | .either a b => a.terminals ++ b.terminals
  | .many a => a.terminals

/-- Numbers the distinct members of a list in order of first appearance. -/
def numbered {α : Type} [BEq α] [Hashable α] (l : List α) : Array α × Std.HashMap α Nat :=
  l.foldl
    (fun (order, index) a =>
      if index.contains a then (order, index) else (order.push a, index.insert a order.size))
    (#[], ∅)

/-- The automata of a grammar. -/
def Automaton.ofRules (rules : List Rule) : Automaton :=
  let (terminals, terminalIndex) := numbered (rules.flatMap fun r => r.body.terminals)
  let (_, ruleIndex) := numbered (rules.map Rule.name)
  let (draft, spans) :=
    rules.foldl
      (fun (d, spans) r =>
        let (start, d) := Draft.fresh d
        let (stop, d) := Draft.add terminalIndex ruleIndex r.body start d
        (d, spans.push (start, stop)))
      ((({} : Draft), #[]) : Draft × Array (Nat × Nat))
  let finals : Std.HashMap Nat Nat :=
    (spans.toList.zipIdx).foldl (fun m ((_, stop), i) => m.insert stop i) ∅
  let fuel := 4 * draft.moves.size + 4
  let states := (Array.range draft.moves.size).map fun s =>
    let closure := Draft.reach draft.silent fuel [s] []
    let edges := (closure.flatMap fun u => draft.moves.getD u []).eraseDups
    { edges, ends := closure.findSome? (finals[·]?) : State }
  ⟨terminals, terminalIndex, states, spans.map Prod.fst⟩

end CodeNotes.Grammar
