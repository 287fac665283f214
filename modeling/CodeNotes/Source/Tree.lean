import CodeNotes.Source.Span

/-!
# Syntax trees

A node has a kind, a span, a condition and children.  A tree is *sound* when no node of it is
faulty.  `Tree.outermost` lists, in source order, the nodes that satisfy a test and lie in no other
such node; `Tree.firstFault?` finds the first faulty node without entering sound subtrees.
-/

namespace CodeNotes

/-- Whether a node stands for text that fits the grammar. -/
inductive Condition where
  /-- The text of the node fits. -/
  | sound
  /-- The text of the node does not fit. -/
  | error
  /-- The node stands for text that is not there. -/
  | missing
deriving DecidableEq, Repr

/-- A syntax tree. -/
inductive Tree where
  | node (kind : String) (span : Span) (condition : Condition) (children : List Tree)

namespace Tree

/-- The kind of the root node. -/
def kind : Tree → String
  | node kind _ _ _ => kind

/-- The span of the root node. -/
def span : Tree → Span
  | node _ span _ _ => span

/-- The condition of the root node. -/
def condition : Tree → Condition
  | node _ _ condition _ => condition

/-- The children of the root node. -/
def children : Tree → List Tree
  | node _ _ _ children => children

/-- Whether the root node itself does not fit. -/
def isFaulty (t : Tree) : Bool :=
  t.condition != .sound

mutual

/-- The topmost nodes that satisfy a test, in source order. -/
def outermost (test : Tree → Bool) : Tree → List Tree
  | t@(node _ _ _ children) => if test t then [t] else outermostAll test children

/-- The topmost nodes of several trees that satisfy a test, in source order. -/
def outermostAll (test : Tree → Bool) : List Tree → List Tree
  | [] => []
  | t :: ts => outermost test t ++ outermostAll test ts

end

mutual

/-- Whether some node of the tree is faulty. -/
def hasFault : Tree → Bool
  | node _ _ condition children => condition != .sound || anyFault children

/-- Whether some node of some tree is faulty. -/
def anyFault : List Tree → Bool
  | [] => false
  | t :: ts => hasFault t || anyFault ts

end

mutual

/-- The first faulty node in depth-first order; a subtree without fault is not entered. -/
def firstFault? : Tree → Option Tree
  | t@(node _ _ condition children) =>
    if condition != .sound then some t
    else if anyFault children then firstFaultOf? children
    else none

/-- The first faulty node of several trees. -/
def firstFaultOf? : List Tree → Option Tree
  | [] => none
  | t :: ts =>
    match firstFault? t with
    | some found => some found
    | none => firstFaultOf? ts

end

end Tree

end CodeNotes
