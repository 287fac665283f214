import CodeNotes.Proofs.Note.Marker
import CodeNotes.Proofs.Source.Comments
import Mathlib.Data.List.Chain

/-!
# Notes written into source text

`embed` writes fragments as comments, one after another: block comments, or comments of one line for
fragments without a body.  Extraction undoes embedding: from a text made of written notes the same
notes come back, in order, each with the lines its comment stands in.

Two facts carry the proof.  What is left of a written comment without its delimiters reads as the
fragment (`parse?_strip_blockComment`, `parse?_strip_lineComment`), so the notes come back from any
tree that has a node for each comment (`notesOfTree_blockComment`, `notesOfTree_lineComment`).  And
what is written is one comment and no more (`isComment_blockComment`, `isComment_lineComment_rust`,
`isComment_lineComment_python`), because nothing inside it closes it early, so the tree of the text
is such a tree (`comprises_embed`).
-/

namespace CodeNotes

/-! ### Fragments that can be written -/

/-- Text that leaves a block comment open: it holds no NUL and no `*/`. -/
def Trivia.Inside (cs : List Char) : Prop :=
  '\x00' ∉ cs ∧ cs.IsChain fun a b => ¬ (a = '*' ∧ b = '/')

instance : DecidablePred Trivia.Inside := fun cs =>
  inferInstanceAs (Decidable ('\x00' ∉ cs ∧ cs.IsChain fun a b => ¬ (a = '*' ∧ b = '/')))

theorem Trivia.inside_iff {cs : List Char} :
    Inside cs ↔ '\x00' ∉ cs ∧ ¬ ['*', '/'] <:+: cs := by
  refine and_congr_right fun _ => ⟨fun hchain hclose => ?_, fun hclose => ?_⟩
  · have hpair := List.IsChain.infix hchain hclose
    exact List.isChain_pair.mp hpair ⟨rfl, rfl⟩
  · refine List.isChain_iff_forall_rel_of_append_cons_cons.mpr ?_
    rintro a b pre post rfl ⟨rfl, rfl⟩
    exact hclose (List.infix_append' pre ['*', '/'] post)

/-- What a fragment must be like to be written into a comment and found again. -/
structure Fragment.Embeddable (f : Fragment) : Prop where
  title_line : ∀ c ∈ f.title.toList, Text.isBreak c = false
  title_trimmed : Text.Trimmed f.title.toList
  body_trimmed : Text.Trimmed f.body.toList
  title_no_close : ¬ ['*', '/'] <:+: f.title.toList
  body_no_close : ¬ ['*', '/'] <:+: f.body.toList
  title_no_nul : '\x00' ∉ f.title.toList
  body_no_nul : '\x00' ∉ f.body.toList

theorem Fragment.embeddable_iff (f : Fragment) :
    f.Embeddable ↔ f.title.toList.all (!Text.isBreak ·) = true ∧ Text.Trimmed f.title.toList ∧
      Text.Trimmed f.body.toList ∧ Trivia.Inside f.title.toList ∧ Trivia.Inside f.body.toList := by
  have hline : f.title.toList.all (!Text.isBreak ·) = true ↔
      ∀ c ∈ f.title.toList, Text.isBreak c = false := by simp
  rw [Trivia.inside_iff, Trivia.inside_iff, hline]
  constructor
  · intro h
    exact ⟨h.title_line, h.title_trimmed, h.body_trimmed, ⟨h.title_no_nul, h.title_no_close⟩,
      ⟨h.body_no_nul, h.body_no_close⟩⟩
  · rintro ⟨hline, htitle, hbody, ⟨htnul, htclose⟩, ⟨hbnul, hbclose⟩⟩
    exact ⟨hline, htitle, hbody, htclose, hbclose, htnul, hbnul⟩

instance : DecidablePred Fragment.Embeddable := fun f =>
  decidable_of_iff _ f.embeddable_iff.symm

/-! ### Writing -/

namespace Source

/-- A fragment as a block comment. -/
def blockComment (f : Fragment) : String :=
  "/* " ++ Marker.line f.id f.title ++ "\n" ++ f.body ++ "\n*/"

/-- A fragment without a body as a comment of one line, behind the mark that opens it. -/
def lineComment (mark : String) (f : Fragment) : String :=
  mark ++ " " ++ Marker.line f.id f.title

/-- Fragments as a source text, each followed by a line feed. -/
def embed (write : Fragment → String) (fs : List Fragment) : String :=
  String.join (fs.map fun f => write f ++ "\n")

theorem toList_embed (write : Fragment → String) (fs : List Fragment) :
    (embed write fs).toList = onLines (fs.map fun f => (write f).toList) := by
  unfold embed onLines
  rw [String.toList_join, List.flatMap_map, List.flatMap_map]
  congr 1
  funext f
  rw [String.toList_append]
  rfl

theorem toList_blockComment (f : Fragment) :
    (blockComment f).toList
      = '/' :: '*' :: ((' ' :: (Marker.line f.id f.title).toList)
        ++ '\n' :: (f.body.toList ++ ['\n']) ++ ['*', '/']) := by
  unfold blockComment
  rw [String.toList_append, String.toList_append, String.toList_append, String.toList_append]
  simp only [List.append_assoc, List.cons_append]
  rfl

theorem toList_lineComment (mark : String) (f : Fragment) :
    (lineComment mark f).toList = mark.toList ++ ' ' :: (Marker.line f.id f.title).toList := by
  unfold lineComment
  rw [String.toList_append, String.toList_append, List.append_assoc]
  rfl

end Source

/-! ### The characters of a marker -/

namespace Marker

/-- The characters of a marker line are those of the opening, digits, dots, a colon, a blank, and
those of the title. -/
theorem mem_line {id : NoteId} {title : String} {c : Char}
    (h : c ∈ (line id title).toList) :
    c ∈ opening ++ [':', ' '] ∨ isIdChar c = true ∨ c ∈ title.toList := by
  rw [toList_line, List.mem_append, List.mem_append, List.mem_cons, List.mem_cons] at h
  rcases h with h | h | rfl | rfl | h
  · exact Or.inl (List.mem_append_left _ h)
  · exact Or.inr (Or.inl (isIdChar_of_mem_display h))
  · exact Or.inl (by decide)
  · exact Or.inl (by decide)
  · exact Or.inr (Or.inr h)

/-- A character that can stand neither in the opening of a marker nor in an id stands in a marker
line only if it stands in the title. -/
theorem mem_title_of_mem_line {id : NoteId} {title : String} {c : Char}
    (hopen : c ∉ opening ++ [':', ' ']) (hid : isIdChar c = false)
    (h : c ∈ (line id title).toList) : c ∈ title.toList := by
  rcases mem_line h with h | h | h
  · exact absurd h hopen
  · rw [hid] at h
    exact absurd h Bool.false_ne_true
  · exact h

/-- A marker line has no line break of its own. -/
theorem isBreak_of_mem_line {id : NoteId} {title : String}
    (htitle : ∀ c ∈ title.toList, Text.isBreak c = false) {c : Char}
    (h : c ∈ (line id title).toList) : Text.isBreak c = false := by
  by_contra hc
  rw [Bool.not_eq_false, Text.isBreak, Bool.or_eq_true, beq_iff_eq, beq_iff_eq] at hc
  rcases hc with rfl | rfl
  · exact absurd (htitle _ (mem_title_of_mem_line (by decide) rfl h)) (by decide)
  · exact absurd (htitle _ (mem_title_of_mem_line (by decide) rfl h)) (by decide)

end Marker

/-! ### What is written is one comment -/

namespace Trivia

theorem inside_nil : Inside [] :=
  ⟨List.not_mem_nil, List.IsChain.nil⟩

/-- Text without stars and NULs may stand before text that leaves a block comment open. -/
theorem Inside.append {cs ds : List Char} (hnul : '\x00' ∉ cs) (hstar : '*' ∉ cs)
    (hds : Inside ds) : Inside (cs ++ ds) := by
  have hcs : cs.IsChain fun a b => ¬ (a = '*' ∧ b = '/') := by
    refine List.isChain_iff_forall_rel_of_append_cons_cons.mpr ?_
    rintro a b pre post rfl ⟨rfl, -⟩
    exact hstar (List.mem_append_right _ List.mem_cons_self)
  refine ⟨?_, hcs.append hds.2 ?_⟩
  · rw [List.mem_append, not_or]
    exact ⟨hnul, hds.1⟩
  · rintro a ha b - ⟨rfl, -⟩
    exact hstar (List.mem_of_getLast? ha)

/-- Two texts that leave a block comment open do so together when they stand on different lines. -/
theorem Inside.append_lineFeed {cs ds : List Char} (hcs : Inside cs) (hds : Inside ds) :
    Inside (cs ++ '\n' :: ds) := by
  have hfeed : Inside (['\n'] ++ ds) := Inside.append (by decide) (by decide) hds
  refine ⟨?_, hcs.2.append hfeed.2 ?_⟩
  · rw [List.mem_append, not_or]
    exact ⟨hcs.1, hfeed.1⟩
  · rintro a - b hb ⟨-, rfl⟩
    exact absurd (Option.some.inj hb) (by decide)

/-- The end of a block comment is the first `*/`. -/
theorem flatBlockLength_inside {cs : List Char} (h : Inside cs) (rest : List Char) :
    flatBlockLength (cs ++ '*' :: '/' :: rest) = some (cs.length + 2) := by
  induction cs with
  | nil => rfl
  | cons c cs ih =>
    obtain ⟨hnul, hchain⟩ := h
    rw [List.mem_cons, not_or] at hnul
    have hopen : ∀ tail, c = '*' → cs ++ '*' :: '/' :: rest = '/' :: tail → False := by
      intro tail hc heq
      cases cs with
      | nil => exact absurd (List.head_eq_of_cons_eq heq) (by decide)
      | cons d cs =>
        have hd : d = '/' := List.head_eq_of_cons_eq heq
        exact (List.isChain_cons_cons.mp hchain).1 ⟨hc, hd⟩
    have hc : (c == '\x00') = false := beq_eq_false_iff_ne.mpr (Ne.symm hnul.1)
    rw [List.cons_append, flatBlockLength.eq_3 _ _ hopen, hc, ih ⟨hnul.2, hchain.tail⟩]
    simp only [Bool.false_eq_true, ite_false, Option.map_some, List.length_cons,
      Nat.add_right_comm]

theorem lengthUntil_append_stop {stop : Char → Bool} {cs rest : List Char}
    (hcs : ∀ c ∈ cs, stop c = false) (hrest : ∀ c ∈ rest.head?, stop c = true) :
    lengthUntil stop (cs ++ rest) = cs.length := by
  have hpass : ∀ c ∈ cs, (!stop c) = true := by
    intro c hc
    rw [hcs c hc]
    rfl
  have hend : ∀ c ∈ rest.head?, (!stop c) = false := by
    intro c hc
    rw [hrest c hc]
    rfl
  rw [lengthUntil, Text.takeWhile_append_stop hpass hend]

end Trivia

namespace Source

/-- The inner text of a written block comment leaves the comment open. -/
theorem inside_blockComment {f : Fragment} (h : f.Embeddable) :
    Trivia.Inside
      ((' ' :: (Marker.line f.id f.title).toList) ++ '\n' :: (f.body.toList ++ ['\n'])) := by
  have htitle : Trivia.Inside f.title.toList :=
    Trivia.inside_iff.mpr ⟨h.title_no_nul, h.title_no_close⟩
  have hbody : Trivia.Inside f.body.toList :=
    Trivia.inside_iff.mpr ⟨h.body_no_nul, h.body_no_close⟩
  have htext : Trivia.Inside (f.title.toList ++ '\n' :: (f.body.toList ++ ['\n'])) :=
    htitle.append_lineFeed (hbody.append_lineFeed Trivia.inside_nil)
  -- What stands before the title holds neither stars nor NULs.
  have hbefore : ∀ c, c ∉ Marker.opening ++ [':', ' '] → Marker.isIdChar c = false →
      c ∉ ' ' :: (Marker.line f.id "").toList := by
    intro c hopen hid hc
    rcases List.mem_cons.mp hc with rfl | hc
    · exact hopen (by decide)
    · exact absurd (Marker.mem_title_of_mem_line hopen hid hc) List.not_mem_nil
  have hsplit : (' ' :: (Marker.line f.id f.title).toList) ++ '\n' :: (f.body.toList ++ ['\n'])
      = (' ' :: (Marker.line f.id "").toList)
        ++ (f.title.toList ++ '\n' :: (f.body.toList ++ ['\n'])) := by
    rw [Marker.toList_line, Marker.toList_line]
    simp only [List.cons_append, List.append_assoc]
    rfl
  rw [hsplit]
  exact Trivia.Inside.append (hbefore _ (by decide) rfl) (hbefore _ (by decide) rfl) htext

/-- A written block comment does not end in a line feed. -/
theorem stop_blockComment (f : Fragment) :
    ∃ c, (blockComment f).toList.getLast? = some c ∧ c ≠ '\n' := by
  refine ⟨'/', ?_, by decide⟩
  rw [toList_blockComment, ← List.cons_append, ← List.cons_append, List.getLast?_append]
  rfl

/-- A written block comment is one comment of JavaScript and TypeScript. -/
theorem isComment_blockComment {language : Language} {f : Fragment} (h : f.Embeddable)
    (hlanguage : language = .javaScript ∨ language = .typeScript ∨ language = .tsx) :
    Trivia.IsComment language "comment" (blockComment f).toList := by
  have hreach : ∀ rest, Trivia.scriptComment? ((blockComment f).toList ++ '\n' :: rest)
      = some ("comment", (blockComment f).toList.length) := by
    intro rest
    have hlength := Trivia.flatBlockLength_inside (inside_blockComment h) ('\n' :: rest)
    rw [toList_blockComment]
    generalize (' ' :: (Marker.line f.id f.title).toList) ++ '\n' :: (f.body.toList ++ ['\n'])
      = inner at hlength ⊢
    rw [List.cons_append, List.cons_append, List.append_assoc, Trivia.scriptComment?]
    show Option.map _ (Trivia.flatBlockLength (inner ++ '*' :: '/' :: '\n' :: rest)) = _
    rw [hlength, Option.map_some, List.length_cons, List.length_cons, List.length_append,
      Nat.add_comm 2]
    rfl
  refine ⟨⟨'/', _, toList_blockComment f, ?_⟩, fun rest => ?_⟩
  · rcases hlanguage with rfl | rfl | rfl <;> rfl
  · rcases hlanguage with rfl | rfl | rfl <;> exact hreach rest

/-- The text of a line that ends no line comment before its line feed. -/
theorem endsLine_of_mem_line {f : Fragment} (h : f.Embeddable) {c : Char}
    (hc : c ∈ ' ' :: (Marker.line f.id f.title).toList) : Trivia.endsLine c = false := by
  rcases List.mem_cons.mp hc with rfl | hc
  · rfl
  · have hbreak := Marker.isBreak_of_mem_line h.title_line hc
    rw [Trivia.endsLine, Bool.or_eq_false_iff, beq_eq_false_iff_ne, beq_eq_false_iff_ne]
    constructor
    · rintro rfl
      exact h.title_no_nul (Marker.mem_title_of_mem_line (by decide) rfl hc)
    · rintro rfl
      exact absurd hbreak (by decide)

theorem lengthUntil_line {f : Fragment} (h : f.Embeddable) (rest : List Char) :
    Trivia.lengthUntil Trivia.endsLine
        ((' ' :: (Marker.line f.id f.title).toList) ++ '\n' :: rest)
      = (' ' :: (Marker.line f.id f.title).toList).length :=
  Trivia.lengthUntil_append_stop (fun _ hc => endsLine_of_mem_line h hc)
    (by intro c hc; obtain rfl := Option.some.inj hc; rfl)

/-- A written line comment does not end in a line feed. -/
theorem stop_lineComment (mark : String) {f : Fragment} (h : f.Embeddable) :
    ∃ c, (lineComment mark f).toList.getLast? = some c ∧ c ≠ '\n' := by
  have hne : ' ' :: (Marker.line f.id f.title).toList ≠ [] := List.cons_ne_nil _ _
  refine ⟨(' ' :: (Marker.line f.id f.title).toList).getLast hne, ?_, ?_⟩
  · rw [toList_lineComment, List.getLast?_append, List.getLast?_eq_some_getLast hne]
    rfl
  · intro hlast
    have hc := endsLine_of_mem_line h (List.getLast_mem hne)
    rw [hlast] at hc
    exact absurd hc (by decide)

/-- A written line comment is one comment of Rust. -/
theorem isComment_lineComment_rust {f : Fragment} (h : f.Embeddable) :
    Trivia.IsComment .rust "line_comment" (lineComment "//" f).toList := by
  have htext : (lineComment "//" f).toList
      = '/' :: '/' :: (' ' :: (Marker.line f.id f.title).toList) := toList_lineComment "//" f
  refine ⟨⟨'/', _, htext, rfl⟩, fun rest => ?_⟩
  rw [htext]
  show some ("line_comment", 2 + Trivia.lengthUntil Trivia.endsLine
    ((' ' :: (Marker.line f.id f.title).toList) ++ '\n' :: rest)) = _
  rw [lengthUntil_line h, Nat.add_comm]
  rfl

/-- A written line comment is one comment of Python. -/
theorem isComment_lineComment_python {f : Fragment} (h : f.Embeddable) :
    Trivia.IsComment .python "comment" (lineComment "#" f).toList := by
  have htext : (lineComment "#" f).toList
      = '#' :: (' ' :: (Marker.line f.id f.title).toList) := toList_lineComment "#" f
  refine ⟨⟨'#', _, htext, rfl⟩, fun rest => ?_⟩
  rw [htext]
  show some ("comment", 1 + Trivia.lengthUntil Trivia.endsLine
    ((' ' :: (Marker.line f.id f.title).toList) ++ '\n' :: rest)) = _
  rw [lengthUntil_line h, Nat.add_comm]
  rfl

/-! ### What is written reads back -/

/-- A trimmed title behind the blank of the marker is found by trimming. -/
theorem trim_title {f : Fragment} (h : f.Embeddable) :
    String.ofList (Text.trim (' ' :: f.title.toList)) = f.title := by
  have htrim : Text.trim ([' '] ++ f.title.toList ++ []) = f.title.toList :=
    Text.trim_surround (List.forall_mem_singleton.mpr rfl) h.title_trimmed (List.forall_mem_nil _)
  rw [List.append_nil] at htrim
  rw [← List.singleton_append, htrim, String.ofList_toList]

/-- What a written block comment says is the fragment. -/
theorem parse?_strip_blockComment {f : Fragment} (h : f.Embeddable) :
    Marker.parse? (String.ofList (Comment.strip (blockComment f).toList)) = some f := by
  have hstrip : Comment.strip (blockComment f).toList
      = [' '] ++ (Marker.line f.id f.title).toList ++ (['\n'] ++ f.body.toList ++ ['\n']) := by
    rw [toList_blockComment, Comment.strip, Comment.blockText, Text.beforeSuffix?_append,
      Option.getD_some]
    rfl
  have hbody : Text.trim (['\n'] ++ f.body.toList ++ ['\n']) = f.body.toList :=
    Text.trim_surround (List.forall_mem_singleton.mpr rfl) h.body_trimmed
      (List.forall_mem_singleton.mpr rfl)
  have hlead : ∀ c ∈ [' '], Text.isSpace c = true := List.forall_mem_singleton.mpr rfl
  rw [hstrip, Marker.parse?_line f.id f.title hlead h.title_line, trim_title h, hbody,
    String.ofList_toList]
  intro c hc
  obtain rfl := Option.some.inj hc
  rfl

/-- What a marker behind a blank says on a line of its own is the fragment without a body. -/
theorem parse?_lineText {f : Fragment} (h : f.Embeddable) (hbody : f.body = "") :
    Marker.parse? (String.ofList (Comment.lineText (' ' :: (Marker.line f.id f.title).toList)))
      = some f := by
  have hline : Comment.lineText (' ' :: (Marker.line f.id f.title).toList)
      = [' '] ++ (Marker.line f.id f.title).toList ++ [] := by
    rw [Comment.lineText, Text.dropEndWhile_eq_self, List.append_nil]
    · rfl
    · intro c hc
      rcases List.mem_cons.mp (List.mem_of_getLast? hc) with rfl | hc
      · rfl
      · exact Marker.isBreak_of_mem_line h.title_line hc
  have htail : ∀ c ∈ ([] : List Char).head?, Text.isBreak c = true := by
    intro c hc
    exact absurd hc (Option.not_mem_none c)
  have hlead : ∀ c ∈ [' '], Text.isSpace c = true := List.forall_mem_singleton.mpr rfl
  rw [hline, Marker.parse?_line f.id f.title hlead h.title_line htail, trim_title h]
  have hempty : String.ofList (Text.trim []) = f.body := hbody.symm
  rw [hempty]

/-- What a written line comment says is the fragment without a body. -/
theorem parse?_strip_lineComment {mark : String} (hmark : mark = "//" ∨ mark = "#")
    {f : Fragment} (h : f.Embeddable) (hbody : f.body = "") :
    Marker.parse? (String.ofList (Comment.strip (lineComment mark f).toList)) = some f := by
  rw [toList_lineComment]
  rcases hmark with rfl | rfl <;> exact parse?_lineText h hbody

/-! ### Extraction -/

/-- The notes among written comments: each stands after the line feeds of those before it. -/
theorem notesOfComments_placedFrom {write : Fragment → String} {fs : List Fragment}
    (hread : ∀ f ∈ fs,
      Marker.parse? (String.ofList (Comment.strip (write f).toList)) = some f)
    (path : Path) (line : Nat) :
    notesOfComments path (Comment.placedFrom line (fs.map fun f => (write f).toList))
      = fs.mapIdx fun k f =>
          f.at path ⟨line + (embed write (fs.take k)).toList.count '\n',
            line + (embed write (fs.take k)).toList.count '\n' + (write f).toList.count '\n'⟩ := by
  induction fs generalizing line with
  | nil => rfl
  | cons f fs ih =>
    have hrest : ∀ f ∈ fs,
        Marker.parse? (String.ofList (Comment.strip (write f).toList)) = some f :=
      fun g hg => hread g (List.mem_cons_of_mem _ hg)
    have hcount : ∀ k, (embed write ((f :: fs).take (k + 1))).toList.count '\n'
        = (write f).toList.count '\n' + 1 + (embed write (fs.take k)).toList.count '\n' := by
      intro k
      rw [toList_embed, toList_embed, List.take_succ_cons, List.map_cons, count_onLines_cons]
    have hzero : (embed write ((f :: fs).take 0)).toList.count '\n' = 0 := by
      rw [toList_embed]
      rfl
    rw [List.map_cons, Comment.placedFrom, notesOfComments, List.filterMap_cons,
      hread f List.mem_cons_self, ← notesOfComments, ih hrest, List.mapIdx_cons]
    simp only [Option.map_some, hzero, hcount, Nat.add_zero, Nat.add_assoc]

/-- The notes of written comments, whatever the comments are and whoever made the tree.  It is
enough that each comment has a node and reads as its fragment. -/
theorem notesOfTree_written {path : Path} {write : Fragment → String} {fs : List Fragment}
    {tree : Tree}
    (htree : tree.Comprises (Language.ofPath path) (fs.map fun f => (write f).toList))
    (hstop : ∀ f ∈ fs, ∃ c, (write f).toList.getLast? = some c ∧ c ≠ '\n')
    (hread : ∀ f ∈ fs,
      Marker.parse? (String.ofList (Comment.strip (write f).toList)) = some f) :
    notesOfTree path (embed write fs).toList tree = .ok (fs.mapIdx fun k f =>
      f.at path ⟨1 + (embed write (fs.take k)).toList.count '\n',
        1 + (embed write (fs.take k)).toList.count '\n' + (write f).toList.count '\n'⟩) := by
  have hfound : commentsOfTree (Language.ofPath path) (embed write fs).toList tree
      = .ok (Comment.placedFrom 1 (fs.map fun f => (write f).toList)) := by
    rw [toList_embed]
    exact commentsOfTree_onLines htree (List.forall_mem_map.mpr hstop)
  rw [notesOfTree, hfound, Except.map, notesOfComments_placedFrom hread]

/-- The tree of fragments that are each written as one comment has a node for each of them. -/
theorem comprises_embed {language : Language} {kind : String} {write : Fragment → String}
    {fs : List Fragment} (hkind : language.isCommentKind kind = true)
    (hcomment : ∀ f ∈ fs, Trivia.IsComment language kind (write f).toList) :
    (parse language (embed write fs).toList).Comprises language
      (fs.map fun f => (write f).toList) := by
  rw [toList_embed]
  exact comprises_parse hkind (List.forall_mem_map.mpr hcomment)

/-- A text that does not start with `#` has no interpreter line. -/
theorem neutralizeShebang_embed {language : Language} {write : Fragment → String}
    {fs : List Fragment} (h : ∀ f ∈ fs, (write f).toList.head? = some '/') :
    neutralizeShebang language (embed write fs) = embed write fs := by
  have hnone : hasShebang (embed write fs).toList = false := by
    cases fs with
    | nil => rfl
    | cons f fs =>
      obtain ⟨tail, htail⟩ := List.head?_eq_some_iff.mp (h f List.mem_cons_self)
      rw [toList_embed, List.map_cons, onLines_cons, htail]
      rfl
  rw [neutralizeShebang, hnone]
  cases language.lineCommentPrefix? <;> rfl

/-! ### Lines of written comments -/

theorem count_line {f : Fragment} (h : f.Embeddable) :
    (' ' :: (Marker.line f.id f.title).toList).count '\n' = 0 := by
  refine List.count_eq_zero.mpr fun hc => ?_
  exact absurd (endsLine_of_mem_line h hc) (by decide)

theorem count_blockComment {f : Fragment} (h : f.Embeddable) :
    (blockComment f).toList.count '\n' = 2 + f.body.toList.count '\n' := by
  have hopen : ∀ cs : List Char, ('/' :: '*' :: cs).count '\n' = cs.count '\n' := fun _ => rfl
  rw [toList_blockComment, hopen, List.count_append, List.count_append, count_line h,
    List.count_cons_self, List.count_append, List.count_singleton_self]
  show 0 + (f.body.toList.count '\n' + 1 + 1) + 0 = _
  omega

theorem count_lineComment {mark : String} (hmark : '\n' ∉ mark.toList) {f : Fragment}
    (h : f.Embeddable) : (lineComment mark f).toList.count '\n' = 0 := by
  rw [toList_lineComment, List.count_append, count_line h, List.count_eq_zero.mpr hmark]

/-- As many line feeds stand before a comment of one line as there are comments before it. -/
theorem count_embed_lineComment {mark : String} (hmark : '\n' ∉ mark.toList)
    {fs : List Fragment} (h : ∀ f ∈ fs, f.Embeddable) :
    (embed (lineComment mark) fs).toList.count '\n' = fs.length := by
  induction fs with
  | nil =>
    rw [toList_embed]
    rfl
  | cons f fs ih =>
    have hrest := ih fun g hg => h g (List.mem_cons_of_mem _ hg)
    rw [toList_embed] at hrest
    rw [toList_embed, List.map_cons, count_onLines_cons,
      count_lineComment hmark (h f List.mem_cons_self), hrest, List.length_cons]
    omega

/-- Notes written as comments of one line stand on the lines one after another. -/
theorem mapIdx_lineComment {mark : String} (hmark : '\n' ∉ mark.toList) {fs : List Fragment}
    (h : ∀ f ∈ fs, f.Embeddable) (path : Path) :
    (fs.mapIdx fun k f =>
        f.at path ⟨1 + (embed (lineComment mark) (fs.take k)).toList.count '\n',
          1 + (embed (lineComment mark) (fs.take k)).toList.count '\n'
            + (lineComment mark f).toList.count '\n'⟩)
      = fs.mapIdx fun k f => f.at path ⟨k + 1, k + 1⟩ := by
  refine List.mapIdx_eq_mapIdx_iff.mpr fun k hk => ?_
  have htake : (embed (lineComment mark) (fs.take k)).toList.count '\n' = k := by
    rw [count_embed_lineComment hmark fun f hf => h f (List.mem_of_mem_take hf),
      List.length_take, Nat.min_eq_left (Nat.le_of_lt hk)]
  rw [htake, count_lineComment hmark (h _ (List.getElem_mem hk)), Nat.add_comm 1 k]

/-! ### Any tree of written comments -/

/-- **Embedding is undone with any parser**, provided that its tree has a node for each comment: the
notes written as block comments come back, each on the lines its comment stands in. -/
theorem notesOfTree_blockComment {path : Path} {fs : List Fragment} (h : ∀ f ∈ fs, f.Embeddable)
    {tree : Tree}
    (htree : tree.Comprises (Language.ofPath path) (fs.map fun f => (blockComment f).toList)) :
    notesOfTree path (embed blockComment fs).toList tree = .ok (fs.mapIdx fun k f =>
      f.at path ⟨1 + (embed blockComment (fs.take k)).toList.count '\n',
        1 + (embed blockComment (fs.take k)).toList.count '\n' + 2
          + f.body.toList.count '\n'⟩) := by
  rw [notesOfTree_written htree (fun f _ => stop_blockComment f)
    fun f hf => parse?_strip_blockComment (h f hf)]
  refine congrArg Except.ok (List.mapIdx_eq_mapIdx_iff.mpr fun k hk => ?_)
  rw [count_blockComment (h _ (List.getElem_mem hk)), ← Nat.add_assoc]

/-- With any such parser, notes without a body written as comments of one line come back, each on
its own line. -/
theorem notesOfTree_lineComment {path : Path} {mark : String} (hmark : mark = "//" ∨ mark = "#")
    {fs : List Fragment} (h : ∀ f ∈ fs, f.Embeddable) (hbody : ∀ f ∈ fs, f.body = "")
    {tree : Tree}
    (htree : tree.Comprises (Language.ofPath path) (fs.map fun f => (lineComment mark f).toList)) :
    notesOfTree path (embed (lineComment mark) fs).toList tree
      = .ok (fs.mapIdx fun k f => f.at path ⟨k + 1, k + 1⟩) := by
  have hfeed : '\n' ∉ mark.toList := by
    rcases hmark with rfl | rfl <;> decide
  rw [notesOfTree_written htree (fun f hf => stop_lineComment mark (h f hf))
    fun f hf => parse?_strip_lineComment hmark (h f hf) (hbody f hf), mapIdx_lineComment hfeed h]

/-! ### The trees of written comments -/

theorem extract_embed_blockComment {path : Path} {fs : List Fragment}
    (hscript : Language.ofPath path = .javaScript ∨ Language.ofPath path = .typeScript ∨
      Language.ofPath path = .tsx) (h : ∀ f ∈ fs, f.Embeddable) :
    extract path (embed blockComment fs) = .ok (fs.mapIdx fun k f =>
      f.at path ⟨1 + (embed blockComment (fs.take k)).toList.count '\n',
        1 + (embed blockComment (fs.take k)).toList.count '\n' + 2
          + f.body.toList.count '\n'⟩) := by
  have hkind : (Language.ofPath path).isCommentKind "comment" = true := by
    rcases hscript with hl | hl | hl <;> rw [hl] <;> rfl
  have hslash : ∀ f ∈ fs, (blockComment f).toList.head? = some '/' := by
    intro f _
    rw [toList_blockComment]
    rfl
  rw [extract_eq_notesOfTree, neutralizeShebang_embed hslash]
  exact notesOfTree_blockComment h
    (comprises_embed hkind fun f hf => isComment_blockComment (h f hf) hscript)

theorem extract_embed_lineComment_rust {path : Path} {fs : List Fragment}
    (hrust : Language.ofPath path = .rust) (h : ∀ f ∈ fs, f.Embeddable)
    (hbody : ∀ f ∈ fs, f.body = "") :
    extract path (embed (lineComment "//") fs)
      = .ok (fs.mapIdx fun k f => f.at path ⟨k + 1, k + 1⟩) := by
  have hkind : (Language.ofPath path).isCommentKind "line_comment" = true := by
    rw [hrust]
    rfl
  have hslash : ∀ f ∈ fs, (lineComment "//" f).toList.head? = some '/' := by
    intro f _
    rw [toList_lineComment]
    rfl
  rw [extract_eq_notesOfTree, neutralizeShebang_embed hslash]
  exact notesOfTree_lineComment (.inl rfl) h hbody
    (comprises_embed hkind fun f hf => hrust ▸ isComment_lineComment_rust (h f hf))

theorem extract_embed_lineComment_python {path : Path} {fs : List Fragment}
    (hpython : Language.ofPath path = .python) (h : ∀ f ∈ fs, f.Embeddable)
    (hbody : ∀ f ∈ fs, f.body = "") :
    extract path (embed (lineComment "#") fs)
      = .ok (fs.mapIdx fun k f => f.at path ⟨k + 1, k + 1⟩) := by
  have hkind : (Language.ofPath path).isCommentKind "comment" = true := by
    rw [hpython]
    rfl
  have hsource : neutralizeShebang (Language.ofPath path) (embed (lineComment "#") fs)
      = embed (lineComment "#") fs := by
    rw [hpython]
    rfl
  rw [extract_eq_notesOfTree, hsource]
  exact notesOfTree_lineComment (.inr rfl) h hbody
    (comprises_embed hkind fun f hf => hpython ▸ isComment_lineComment_python (h f hf))

/-- **Extraction undoes embedding.**  Notes written as block comments come back from a file of
JavaScript or TypeScript, each on the lines from the first one after all line feeds before it; notes
without a body written as comments of one line come back from a file of Rust or Python, each on its
own line. -/
theorem extract_embed (path : Path) (fs : List Fragment) (h : ∀ f ∈ fs, f.Embeddable) :
    (Language.ofPath path = .javaScript ∨ Language.ofPath path = .typeScript ∨
        Language.ofPath path = .tsx →
      extract path (embed blockComment fs) = .ok (fs.mapIdx fun k f =>
        f.at path ⟨1 + (embed blockComment (fs.take k)).toList.count '\n',
          1 + (embed blockComment (fs.take k)).toList.count '\n' + 2
            + f.body.toList.count '\n'⟩)) ∧
    ((∀ f ∈ fs, f.body = "") →
      (Language.ofPath path = .rust → extract path (embed (lineComment "//") fs)
        = .ok (fs.mapIdx fun k f => f.at path ⟨k + 1, k + 1⟩)) ∧
      (Language.ofPath path = .python → extract path (embed (lineComment "#") fs)
        = .ok (fs.mapIdx fun k f => f.at path ⟨k + 1, k + 1⟩))) := by
  refine ⟨fun hscript => extract_embed_blockComment hscript h, fun hbody => ⟨?_, ?_⟩⟩
  · intro hrust
    exact extract_embed_lineComment_rust hrust h hbody
  · intro hpython
    exact extract_embed_lineComment_python hpython h hbody

/-- Two notes, the second with the largest id, an empty title and no body. -/
theorem extract_embed_two_notes :
    extract ⟨"src/app.tsx"⟩ (embed blockComment
        [⟨⟨[1, 0], by decide, by decide⟩, "Stars ** and /* slashes", "/ one *\n\n* two"⟩,
          ⟨⟨[18446744073709551615], by decide, by decide⟩, "", ""⟩])
      = .ok
        [⟨⟨[1, 0], by decide, by decide⟩, "Stars ** and /* slashes", "/ one *\n\n* two",
            ⟨"src/app.tsx"⟩, ⟨1, 5⟩⟩,
          ⟨⟨[18446744073709551615], by decide, by decide⟩, "", "", ⟨"src/app.tsx"⟩, ⟨6, 8⟩⟩] ∧
    extract ⟨"lib.rs"⟩ (embed (lineComment "//") [⟨⟨[3], by decide, by decide⟩, "Why", ""⟩])
      = .ok [⟨⟨[3], by decide, by decide⟩, "Why", "", ⟨"lib.rs"⟩, ⟨1, 1⟩⟩] := by
  exact ⟨(extract_embed ⟨"src/app.tsx"⟩ _ (by decide)).1 (by decide),
    ((extract_embed ⟨"lib.rs"⟩ _ (by decide)).2 (by decide)).1 (by decide)⟩

end Source

end CodeNotes
