import CodeNotes.Proofs.Grammar.Leaves
import CodeNotes.Proofs.Grammar.PythonTokens
import CodeNotes.Proofs.Grammar.RustTokens
import CodeNotes.Proofs.Grammar.ScriptTokens
import CodeNotes.Proofs.Source.Comments
import CodeNotes.Proofs.Source.Outermost

/-!
# Comments in the order of the text

In a syntax tree, the children of a node stand one behind the other within the node (`Tree.Nested`).
Of such a tree the outermost nodes that satisfy a test stand one behind the other
(`Tree.Nested.pairwise_outermost`), and what stands behind a span does not start on an earlier line
than the span ends (`Span.last_le_first`).  So the comments of a tree come in the order of their
lines, and so do the notes that are read off it (`Source.pairwise_lines_notesOfTree`).

This asks nothing else of a parser.  The tree of every text is of this kind (`Source.nested_parse`):
its leaves are those that the lexicon of the language finds on the way through the text.
-/

namespace CodeNotes

/-! ### Lines of spans -/

theorem Span.last_le_first {a b : Span} (h : a.stop ≤ b.start) (source : List Char) :
    (a.lines source).last ≤ (b.lines source).first := by
  have hrow : (a.stopPosition source).row ≤ (b.startPosition source).row :=
    (List.take_prefix_take_left h).sublist.count_le '\n'
  have hlast : (a.lines source).last ≤ (a.stopPosition source).row + 1 := by
    rw [lines]
    dsimp only
    split
    · exact Nat.le_succ _
    · exact Nat.le_refl _
  exact Nat.le_trans hlast (Nat.succ_le_succ hrow)

/-! ### Nested spans -/

namespace Tree

/-- A tree in which the children of each node stand one behind the other, within the node. -/
inductive Nested : Tree → Prop
  | node {kind : String} {span : Span} {condition : Condition} {children : List Tree}
      (apart : children.Pairwise fun a b => a.span.stop ≤ b.span.start)
      (within : ∀ c ∈ children, span.start ≤ c.span.start ∧ c.span.stop ≤ span.stop)
      (nested : ∀ c ∈ children, c.Nested) :
    Nested (.node kind span condition children)

theorem nested_node_iff {kind : String} {span : Span} {condition : Condition}
    {children : List Tree} :
    (Tree.node kind span condition children).Nested ↔
      (children.Pairwise fun a b => a.span.stop ≤ b.span.start) ∧
      (∀ c ∈ children, span.start ≤ c.span.start ∧ c.span.stop ≤ span.stop) ∧
      ∀ c ∈ children, c.Nested :=
  ⟨fun | .node apart within nested => ⟨apart, within, nested⟩, fun h => .node h.1 h.2.1 h.2.2⟩

theorem nested_ofLeaf (l : Leaf) : (ofLeaf l).Nested :=
  .node List.Pairwise.nil nofun nofun

theorem outermostAll_eq_flatMap (test : Tree → Bool) (ts : List Tree) :
    outermostAll test ts = ts.flatMap (outermost test) := by
  induction ts with
  | nil => rw [outermostAll, List.flatMap_nil]
  | cons t ts ih => rw [outermostAll, List.flatMap_cons, ih]

namespace Nested

variable {t : Tree} (test : Tree → Bool)

theorem within_of_mem_outermost (h : t.Nested) :
    ∀ u ∈ t.outermost test, t.span.start ≤ u.span.start ∧ u.span.stop ≤ t.span.stop := by
  induction h with
  | @node kind span condition children apart within nested ih =>
    intro u hu
    rw [outermost] at hu
    split at hu
    · obtain rfl := List.mem_singleton.mp hu
      exact ⟨Nat.le_refl _, Nat.le_refl _⟩
    · rw [outermostAll_eq_flatMap] at hu
      obtain ⟨c, hc, hu⟩ := List.mem_flatMap.mp hu
      have hchild := within c hc
      have hinner := ih c hc u hu
      exact ⟨Nat.le_trans hchild.1 hinner.1, Nat.le_trans hinner.2 hchild.2⟩

/-- **The outermost nodes of a nested tree stand one behind the other.** -/
theorem pairwise_outermost (h : t.Nested) :
    (t.outermost test).Pairwise fun a b => a.span.stop ≤ b.span.start := by
  induction h with
  | @node kind span condition children apart within nested ih =>
    rw [outermost]
    split
    · exact List.pairwise_singleton _ _
    · rw [outermostAll_eq_flatMap, List.pairwise_flatMap]
      -- Nodes in different children are kept apart by the children they lie in.
      refine ⟨ih, apart.imp_of_mem fun {c d} hc hd hcd a ha b hb => ?_⟩
      have hfirst := (nested c hc).within_of_mem_outermost test a ha
      have hsecond := (nested d hd).within_of_mem_outermost test b hb
      exact Nat.le_trans hfirst.2 (Nat.le_trans hcd hsecond.1)

end Nested

end Tree

/-! ### The trees of texts -/

/-- The comments at the start of a text stand one behind the other in it. -/
theorem Trivia.leading_ordered (language : Language) (cs : List Char) (offset : Nat) :
    (leading language cs offset).1.Pairwise (fun l l' => l.span.stop ≤ l'.span.start) ∧
      ∀ l ∈ (leading language cs offset).1,
        offset ≤ l.span.start ∧ l.span.stop ≤ offset + cs.length := by
  fun_induction leading language cs offset with
  | case1 => exact ⟨List.Pairwise.nil, nofun⟩
  | case2 offset c rest _ ih =>
    refine ⟨ih.1, fun l hl => ?_⟩
    have hl := ih.2 l hl
    rw [List.length_cons]
    omega
  | case3 => exact ⟨List.Pairwise.nil, nofun⟩
  | case4 offset c rest _ kind length hcomment _ leaves left hrest ih =>
    rw [hrest] at ih
    obtain ⟨-, hlength⟩ := comment?_length hcomment
    rw [List.length_drop] at ih
    refine ⟨List.pairwise_cons.mpr ⟨fun l hl => (ih.2 l hl).1, ih.1⟩, ?_⟩
    refine List.forall_mem_cons.mpr ⟨⟨Nat.le_refl _, Nat.add_le_add_left hlength _⟩, fun l hl => ?_⟩
    have hl := ih.2 l hl
    omega
  | case5 => exact ⟨List.Pairwise.nil, nofun⟩

/-- Neither dialect of TypeScript changes what is found at an offset. -/
theorem Grammar.TypeScript.onward_lexicon : lexicon.Onward :=
  have h := Script.onward_lexicon semicolonRules true
  ⟨h.scan, h.comment, h.context⟩

theorem Grammar.TypeScript.onward_elementLexicon : elementLexicon.Onward :=
  have h := onward_lexicon
  ⟨h.scan, h.comment, h.context⟩

namespace Source

open Grammar in
/-- The leaves of a text that is read stand one behind the other in it. -/
theorem read_ordered {language : Language} {text : Array Char} {leaves : List Leaf}
    (h : read language text = .ok leaves) :
    leaves.Pairwise (fun l l' => l.span.stop ≤ l'.span.start) ∧
      ∀ l ∈ leaves, l.span.stop ≤ text.size := by
  cases language with
  | javaScript => exact Automaton.read_ordered (Script.onward_lexicon _ _) JavaScript.automaton h
  | typeScript => exact Automaton.read_ordered TypeScript.onward_lexicon TypeScript.automaton h
  | tsx =>
    exact Automaton.read_ordered TypeScript.onward_elementLexicon TypeScript.elementAutomaton h
  | rust => exact Automaton.read_ordered Rust.onward_lexicon Rust.automaton h
  | python => exact Automaton.read_ordered Python.onward_lexicon Python.automaton h

/-- **The tree of a text is nested.** -/
theorem nested_parse (language : Language) (source : List Char) :
    (parse language source).Nested := by
  have hwhole : ∀ leaves : List Leaf,
      leaves.Pairwise (fun l l' => l.span.stop ≤ l'.span.start) →
      (∀ l ∈ leaves, l.span.stop ≤ source.length) →
      (Tree.node language.rootKind ⟨0, source.length⟩ .sound (leaves.map Tree.ofLeaf)).Nested := by
    intro leaves hordered hwithin
    refine .node (List.pairwise_map.mpr hordered) ?_ ?_
    · exact List.forall_mem_map.mpr fun l hl => ⟨Nat.zero_le _, hwithin l hl⟩
    · exact List.forall_mem_map.mpr fun l _ => Tree.nested_ofLeaf l
  unfold parse
  extract_lets whole leaf
  split
  · -- A text of nothing but white space and comments is not read with the grammar.
    next leaves hleading =>
    have hleaves := Trivia.leading_ordered language source 0
    rw [hleading] at hleaves
    exact hwhole leaves hleaves.1 fun l hl => by simpa using (hleaves.2 l hl).2
  · split
    · next leaves hread =>
      have hleaves := read_ordered hread
      exact hwhole leaves hleaves.1 hleaves.2
    · -- A text that does not fit has a single faulty node, which reaches to its end.
      exact .node (List.pairwise_singleton _ _)
        (List.forall_mem_singleton.mpr ⟨Nat.zero_le _, Nat.le_refl _⟩)
        (List.forall_mem_singleton.mpr (.node List.Pairwise.nil nofun nofun))

end Source

/-! ### Comments and notes -/

theorem Comment.pairwise_lines_ofTree (language : Language) (source : List Char) {tree : Tree}
    (h : tree.Nested) :
    (ofTree language source tree).Pairwise fun a b => a.lines.last ≤ b.lines.first :=
  List.pairwise_map.mpr ((h.pairwise_outermost _).imp fun hab => Span.last_le_first hab source)

namespace Source

/-- The notes of a nested tree come in the order of their lines, whoever made the tree. -/
theorem pairwise_lines_notesOfTree {path : Path} {text : List Char} {tree : Tree}
    (hnested : tree.Nested) {notes : List Note} (h : notesOfTree path text tree = .ok notes) :
    notes.Pairwise fun a b => a.lines.last ≤ b.lines.first := by
  rw [notesOfTree, commentsOfTree] at h
  split at h
  · cases h
  · obtain rfl := Except.ok.inj h
    -- A note has the lines of its comment, and comments without a note are left out.
    refine List.Pairwise.filterMap _ ?_ (Comment.pairwise_lines_ofTree _ text hnested)
    intro a b hab note hnote note' hnote'
    obtain ⟨_, -, rfl⟩ := Option.map_eq_some_iff.mp hnote
    obtain ⟨_, -, rfl⟩ := Option.map_eq_some_iff.mp hnote'
    exact hab

/-- The notes of a file come in the order of their lines. -/
theorem pairwise_lines_extract {path : Path} {source : String} {notes : List Note}
    (h : extract path source = .ok notes) :
    notes.Pairwise fun a b => a.lines.last ≤ b.lines.first :=
  pairwise_lines_notesOfTree (nested_parse _ _) h

end Source

/-- **The walk for comments is complete and in order.**  In every tree the loop with the cursor is
left, after as many turns as the tree has nodes at the latest.  When it is left, the nodes found are
the comments of the tree; they are the nodes of a comment kind with no such node above them, each
once, in the order in which a tree is gone through from the root (their addresses grow).

Where the children of each node stand one behind the other within it, so do the nodes found: each
stops before the next one starts, and starts before it unless it is empty, and its last line is not
behind the first line of the next.  The notes of a file come in this order of lines. -/
theorem Comment.walk_in_order (language : Language) (source : List Char) (tree : Tree) :
    let isComment := fun t : Tree => language.isCommentKind t.kind
    let walk := fun n => (Tree.Walk.turn isComment)^[n] (Tree.Walk.start tree)
    (∀ n, tree.size ≤ n → (walk n).cursor? = none) ∧
    (∀ n, (walk n).cursor? = none →
      ofTree language source tree = (walk n).found.map (ofNode source) ∧
      (∃ addresses : List (List Nat), addresses.map tree.at? = (walk n).found.map some ∧
        addresses.Pairwise (· < ·) ∧ ∀ a, a ∈ addresses ↔ tree.IsOutermost isComment a) ∧
      (tree.Nested →
        (walk n).found.Pairwise (fun a b => a.span.stop ≤ b.span.start ∧
          (a.span.start < a.span.stop → a.span.start < b.span.start)) ∧
        (ofTree language source tree).Pairwise fun a b => a.lines.last ≤ b.lines.first)) ∧
    ∀ path text notes, Source.extract path text = .ok notes →
      notes.Pairwise fun a b => a.lines.last ≤ b.lines.first := by
  intro isComment walk
  refine ⟨fun n => Tree.Walk.cursor?_iterate isComment tree, fun n hleft => ?_,
    fun _ _ _ => Source.pairwise_lines_extract⟩
  have hfound : (walk n).found = tree.outermost isComment := Tree.Walk.found_of_cursor? hleft
  rw [hfound]
  refine ⟨rfl, ⟨tree.places isComment, tree.map_at?_places, tree.pairwise_places,
    tree.mem_places_iff⟩, fun hnested => ⟨?_, pairwise_lines_ofTree language source hnested⟩⟩
  exact (hnested.pairwise_outermost isComment).imp fun hab =>
    ⟨hab, fun hne => Nat.lt_of_lt_of_le hne hab⟩

/-- A comment in a block, with a comment in it that is passed over, and one behind the block. -/
theorem Comment.walk_in_order_block :
    let tree : Tree := .node "program" ⟨0, 14⟩ .sound
      [.node "block" ⟨0, 9⟩ .sound
        [.node "comment" ⟨1, 8⟩ .sound [.node "comment" ⟨3, 6⟩ .sound []]],
        .node "comment" ⟨10, 14⟩ .sound []]
    let source := "\x7b/*//a*/\x7d\n// b".toList
    let walk := (Tree.Walk.turn fun t => Language.javaScript.isCommentKind t.kind)^[5]
      (Tree.Walk.start tree)
    tree.Nested ∧ walk.cursor? = none ∧
    walk.found.map (ofNode source) = [⟨"//a", ⟨1, 1⟩⟩, ⟨" b", ⟨2, 2⟩⟩] ∧
    walk.found.Pairwise (fun a b => a.span.stop ≤ b.span.start ∧
      (a.span.start < a.span.stop → a.span.start < b.span.start)) := by
  intro tree source walk
  have hnested : tree.Nested := by simp [tree, Tree.nested_node_iff, Tree.span]
  obtain ⟨hleft, hfound, -⟩ := walk_in_order .javaScript source tree
  obtain ⟨hcomments, -, hordered⟩ := hfound 5 (hleft 5 (by decide))
  exact ⟨hnested, hleft 5 (by decide), hcomments ▸ by decide, (hordered hnested).1⟩

end CodeNotes
