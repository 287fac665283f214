import CodeNotes.Proofs.Text.Scan
import CodeNotes.Source.Extract

/-!
# Texts made of comments

Of a source text in which nothing stands but comments, each followed by a line feed, one thing is
asked of a parser: a tree without faults that has a comment node for each of them
(`Tree.Comprises`).  From any such tree the comments are read one by one with the lines they stand
in (`Source.commentsOfTree_onLines`), since the offset of a comment tells how many line feeds stand
before it (`Span.lines_between`).

The tree of `Source.parse` is one (`Source.comprises_parse`).  `Trivia.leading` settles such a text:
it passes over one comment and its line feed at a time (`Trivia.leading_onLines`), so the nodes of
the tree are known with their offsets.
-/

namespace CodeNotes

/-- Texts one after another, each followed by a line feed. -/
def onLines (texts : List (List Char)) : List Char :=
  texts.flatMap (· ++ ['\n'])

@[simp]
theorem onLines_nil : onLines [] = [] := rfl

theorem onLines_cons (cs : List Char) (texts : List (List Char)) :
    onLines (cs :: texts) = cs ++ '\n' :: onLines texts := by
  rw [onLines, List.flatMap_cons, List.append_assoc]
  rfl

theorem count_onLines_cons (cs : List Char) (texts : List (List Char)) :
    (onLines (cs :: texts)).count '\n' = cs.count '\n' + 1 + (onLines texts).count '\n' := by
  rw [onLines_cons, List.count_append, List.count_cons_self]
  omega

/-! ### Spans -/

namespace Span

/-- The text of a span that is given by the length of what stands before it. -/
theorem text_between (pre cs post : List Char) :
    text ⟨pre.length, pre.length + cs.length⟩ (pre ++ (cs ++ post)) = cs := by
  rw [text, List.drop_left, Nat.add_sub_cancel_left, List.take_left]

/-- Something stands on the line that a text ends in, unless the text ends in a line feed. -/
theorem column_after_pos {cs : List Char} {c : Char} (hlast : cs.getLast? = some c)
    (hc : c ≠ '\n') : 0 < (Position.after cs).column := by
  obtain ⟨front, rfl⟩ := List.getLast?_eq_some_iff.mp hlast
  have hpos : 0 < c.utf8Size := Char.utf8Size_pos c
  have htest : (c != '\n') = true := bne_iff_ne.mpr hc
  rw [Position.after, Position.sinceBreak, List.reverse_append, List.reverse_singleton,
    List.singleton_append, List.takeWhile_cons, htest]
  simp only [ite_true, Text.byteLength]
  omega

/-- **The lines of a span.**  A span that does not end in a line feed starts on the line after all
line feeds before it, and stops on the line after those and its own. -/
theorem lines_between (pre post : List Char) {cs : List Char} {c : Char}
    (hlast : cs.getLast? = some c) (hc : c ≠ '\n') :
    lines ⟨pre.length, pre.length + cs.length⟩ (pre ++ (cs ++ post))
      = ⟨pre.count '\n' + 1, pre.count '\n' + 1 + cs.count '\n'⟩ := by
  have hstart : startPosition ⟨pre.length, pre.length + cs.length⟩ (pre ++ (cs ++ post))
      = Position.after pre := by
    rw [startPosition, List.take_left]
  have hstop : stopPosition ⟨pre.length, pre.length + cs.length⟩ (pre ++ (cs ++ post))
      = Position.after (pre ++ cs) := by
    rw [stopPosition, ← List.append_assoc, ← List.length_append, List.take_left]
  have hcolumn : (Position.after (pre ++ cs)).column ≠ 0 := by
    have hlast' : (pre ++ cs).getLast? = some c := by
      rw [List.getLast?_append, hlast]
      rfl
    exact Nat.ne_of_gt (column_after_pos hlast' hc)
  have hrow : (Position.after (pre ++ cs)).row = pre.count '\n' + cs.count '\n' :=
    List.count_append
  rw [lines]
  simp only [hstart, hstop, hcolumn, hrow, false_and, ite_false, LineRange.mk.injEq]
  exact ⟨rfl, by omega⟩

/-- The spans of texts on lines of their own, the first of which starts at an offset. -/
def onLinesFrom : Nat → List (List Char) → List Span
  | _, [] => []
  | offset, cs :: texts =>
    ⟨offset, offset + cs.length⟩ :: onLinesFrom (offset + cs.length + 1) texts

end Span

/-! ### Comments at the start of a text -/

namespace Trivia

/-- A text that is one comment when it stands before a line feed. -/
structure IsComment (language : Language) (kind : String) (cs : List Char) : Prop where
  /-- There is a first character, and it is no white space. -/
  start : ∃ c rest, cs = c :: rest ∧ isSpace language c = false
  /-- The comment reaches up to the line feed, whatever follows. -/
  reach : ∀ rest, comment? language (cs ++ '\n' :: rest) = some (kind, cs.length)

theorem isSpace_lineFeed (language : Language) : isSpace language '\n' = true := by
  cases language <;> rfl

/-- One comment and its line feed are passed over together. -/
theorem leading_comment {language : Language} {kind : String} {cs : List Char}
    (h : IsComment language kind cs) (rest : List Char) (offset : Nat) :
    leading language (cs ++ '\n' :: rest) offset
      = (⟨kind, ⟨offset, offset + cs.length⟩⟩ ::
          (leading language rest (offset + cs.length + 1)).1,
        (leading language rest (offset + cs.length + 1)).2) := by
  obtain ⟨c, tail, rfl, hc⟩ := h.start
  have hreach := h.reach rest
  have hlen : ¬ (c :: tail).length = 0 := Nat.succ_ne_zero _
  have hfeed : leading language ('\n' :: rest) (offset + (c :: tail).length)
      = leading language rest (offset + (c :: tail).length + 1) := by
    rw [leading, isSpace_lineFeed]
    rfl
  rw [List.cons_append] at hreach ⊢
  rw [leading, hc, hreach]
  simp only [Bool.false_eq_true, ite_false, hlen, dite_false]
  rw [← List.cons_append, List.drop_left, hfeed]

/-- Nothing is left of a text made of comments, and every comment is found where it stands. -/
theorem leading_onLines {language : Language} {kind : String} {texts : List (List Char)}
    (h : ∀ cs ∈ texts, IsComment language kind cs) (offset : Nat) :
    leading language (onLines texts) offset
      = ((Span.onLinesFrom offset texts).map (Leaf.mk kind), []) := by
  induction texts generalizing offset with
  | nil =>
    rw [onLines_nil, leading]
    rfl
  | cons cs texts ih =>
    have hrest : ∀ cs ∈ texts, IsComment language kind cs :=
      fun cs hcs => h cs (List.mem_cons_of_mem _ hcs)
    rw [onLines_cons, leading_comment (h cs List.mem_cons_self), ih hrest]
    rfl

end Trivia

/-! ### Trees of comments -/

namespace Tree

/-- The node of a leaf. -/
def ofLeaf (l : Leaf) : Tree :=
  node l.kind l.span .sound []

theorem anyFault_map_ofLeaf (leaves : List Leaf) : anyFault (leaves.map ofLeaf) = false := by
  induction leaves with
  | nil => rfl
  | cons l leaves ih =>
    rw [List.map_cons, anyFault, ih]
    rfl

theorem outermostAll_map_ofLeaf {test : Tree → Bool} {leaves : List Leaf}
    (h : ∀ l ∈ leaves, test (ofLeaf l) = true) :
    outermostAll test (leaves.map ofLeaf) = leaves.map ofLeaf := by
  induction leaves with
  | nil => rfl
  | cons l leaves ih =>
    have hl : outermost test (ofLeaf l) = [ofLeaf l] := by
      rw [ofLeaf, outermost]
      exact if_pos (h l List.mem_cons_self)
    rw [List.map_cons, outermostAll, hl, ih fun l hl => h l (List.mem_cons_of_mem _ hl)]
    rfl

/-- A tree of a text that is made of comments, each followed by a line feed: nothing in it is
faulty, and it has a comment node for each of them. -/
structure Comprises (language : Language) (texts : List (List Char)) (tree : Tree) : Prop where
  sound : tree.hasFault = false
  spans : (tree.outermost fun t => language.isCommentKind t.kind).map Tree.span
    = Span.onLinesFrom 0 texts

end Tree

theorem Language.isCommentKind_rootKind (language : Language) :
    language.isCommentKind language.rootKind = false := by
  cases language <;> rfl

/-! ### The comments of a text -/

namespace Comment

/-- Comments on lines of their own, the first of which stands on a given line. -/
def placedFrom : Nat → List (List Char) → List Comment
  | _, [] => []
  | line, cs :: texts =>
    ⟨String.ofList (strip cs), ⟨line, line + cs.count '\n'⟩⟩ ::
      placedFrom (line + cs.count '\n' + 1) texts

/-- Nodes with the spans of comments stand for these comments, in any text that goes on with them:
the line of a comment is told by the line feeds of what stands before it. -/
theorem map_ofNode_of_spans {texts : List (List Char)}
    (hstop : ∀ cs ∈ texts, ∃ c, cs.getLast? = some c ∧ c ≠ '\n') (pre : List Char)
    {nodes : List Tree} (h : nodes.map Tree.span = Span.onLinesFrom pre.length texts) :
    nodes.map (ofNode (pre ++ onLines texts)) = placedFrom (pre.count '\n' + 1) texts := by
  induction texts generalizing pre nodes with
  | nil =>
    obtain rfl := List.map_eq_nil_iff.mp h
    rfl
  | cons cs texts ih =>
    obtain ⟨node, nodes, rfl, hspan, hspans⟩ := List.map_eq_cons_iff.mp h
    obtain ⟨c, hlast, hc⟩ := hstop cs List.mem_cons_self
    -- Before the other texts there stands what stood before, this text and its line feed.
    have hpre : pre ++ onLines (cs :: texts) = (pre ++ (cs ++ ['\n'])) ++ onLines texts := by
      rw [onLines_cons, List.append_assoc, List.append_assoc]
      rfl
    have hlen : pre.length + cs.length + 1 = (pre ++ (cs ++ ['\n'])).length := by
      rw [List.length_append, List.length_append, List.length_singleton]
      omega
    have hcount : (pre ++ (cs ++ ['\n'])).count '\n' + 1
        = pre.count '\n' + 1 + cs.count '\n' + 1 := by
      rw [List.count_append, List.count_append, List.count_singleton_self]
      omega
    have hnode : ofNode (pre ++ onLines (cs :: texts)) node
        = ⟨String.ofList (strip cs),
            ⟨pre.count '\n' + 1, pre.count '\n' + 1 + cs.count '\n'⟩⟩ := by
      rw [onLines_cons, ofNode, hspan, Span.text_between, Span.lines_between _ _ hlast hc]
    rw [hlen] at hspans
    rw [placedFrom, List.map_cons, hnode, hpre,
      ih (fun cs hcs => hstop cs (List.mem_cons_of_mem _ hcs)) _ hspans, hcount]

end Comment

namespace Source

/-- **A text made of comments is read, whatever its tree is otherwise.**  Every comment is found, in
order and on its lines. -/
theorem commentsOfTree_onLines {language : Language} {texts : List (List Char)} {tree : Tree}
    (htree : tree.Comprises language texts)
    (hstop : ∀ cs ∈ texts, ∃ c, cs.getLast? = some c ∧ c ≠ '\n') :
    commentsOfTree language (onLines texts) tree = .ok (Comment.placedFrom 1 texts) := by
  have hplaced := Comment.map_ofNode_of_spans hstop [] htree.spans
  rw [commentsOfTree, htree.sound, Comment.ofTree]
  exact congrArg Except.ok hplaced

/-- **The tree of a text made of comments** has a node for each of them, in every language. -/
theorem comprises_parse {language : Language} {kind : String} {texts : List (List Char)}
    (hkind : language.isCommentKind kind = true)
    (h : ∀ cs ∈ texts, Trivia.IsComment language kind cs) :
    (parse language (onLines texts)).Comprises language texts := by
  -- Nothing is left behind the comments, so the text is not read with the grammar.
  have htree : parse language (onLines texts)
      = .node language.rootKind ⟨0, (onLines texts).length⟩ .sound
          (((Span.onLinesFrom 0 texts).map (Leaf.mk kind)).map Tree.ofLeaf) := by
    rw [parse, Trivia.leading_onLines h]
    rfl
  have hleaves : ∀ l ∈ (Span.onLinesFrom 0 texts).map (Leaf.mk kind),
      language.isCommentKind (Tree.ofLeaf l).kind = true :=
    List.forall_mem_map.mpr fun _ _ => hkind
  constructor
  · rw [htree, Tree.hasFault, Tree.anyFault_map_ofLeaf]
    rfl
  · rw [htree, Tree.outermost, Tree.kind, Language.isCommentKind_rootKind]
    simp only [Bool.false_eq_true, ite_false]
    rw [Tree.outermostAll_map_ofLeaf hleaves, List.map_map, List.map_map]
    exact List.map_id _

/-! ### The notes of a tree -/

/-- The notes that are read off a tree of a text. -/
def notesOfTree (path : Path) (text : List Char) (tree : Tree) : Except Fault (List Note) :=
  (commentsOfTree (Language.ofPath path) text tree).map (notesOfComments path)

/-- The notes of a file are those of the tree of its text. -/
theorem extract_eq_notesOfTree (path : Path) (source : String) :
    extract path source
      = notesOfTree path (neutralizeShebang (Language.ofPath path) source).toList
          (parse (Language.ofPath path)
            (neutralizeShebang (Language.ofPath path) source).toList) := rfl

end Source

end CodeNotes
