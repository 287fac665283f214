import CodeNotes.Source.Comment
import Mathlib.Data.List.Basic
import Mathlib.Data.List.Induction

/-!
# The lines of a span

A comment is placed on lines by two positions alone, where it starts and where it stops
(`LineRange.between`): if it stops at the start of a later line, it is taken to own the line feed
before, and does not touch that line.  Here it is shown that this is right for every stretch of
bytes that is not empty (`Bytes.lines_eq`): the lines it is given are precisely those that hold
one of its bytes (`Bytes.mem_lines_iff`).

Positions count bytes, while texts are made of characters.  Both ways of counting agree, because the
byte of a line feed stands in the encoding of no other character (`Position.after_eq_afterBytes`).
-/

namespace CodeNotes

/-! ### Bytes -/

namespace Text

/-- The bytes of a text. -/
def bytes (cs : List Char) : List UInt8 :=
  cs.flatMap String.utf8EncodeChar

/-- The byte of a line feed. -/
def lineFeed : UInt8 := 10

theorem bytes_append (cs cs' : List Char) : bytes (cs ++ cs') = bytes cs ++ bytes cs' :=
  List.flatMap_append

theorem bytes_singleton (c : Char) : bytes [c] = String.utf8EncodeChar c :=
  List.flatMap_singleton String.utf8EncodeChar c

theorem length_bytes (cs : List Char) : (bytes cs).length = byteLength cs := by
  induction cs with
  | nil => rfl
  | cons c cs ih =>
    rw [bytes, List.flatMap_cons, List.length_append, String.length_utf8EncodeChar, byteLength,
      ← ih, bytes]

/-- The bytes of the first characters are the first bytes. -/
theorem bytes_take (cs : List Char) (k : Nat) :
    bytes (cs.take k) = (bytes cs).take (byteLength (cs.take k)) := by
  have hsplit : bytes cs = bytes (cs.take k) ++ bytes (cs.drop k) := by
    rw [← bytes_append, List.take_append_drop]
  rw [hsplit, ← length_bytes, List.take_left]

theorem eq_lineFeed_iff {n : Nat} : lineFeed = UInt8.ofNat n ↔ n % 256 = 10 := by
  rw [← UInt8.toNat_inj, UInt8.toNat_ofNat']
  exact eq_comm

/-- A character other than the line feed is encoded without the byte of a line feed: all bytes of a
longer encoding have their highest bit set. -/
theorem lineFeed_not_mem {c : Char} (hc : c ≠ '\n') : lineFeed ∉ String.utf8EncodeChar c := by
  have hval : c.val.toNat ≠ 10 := fun h => hc (Char.ext (UInt32.toNat_inj.mp h))
  intro hmem
  simp only [String.utf8EncodeChar] at hmem
  split at hmem
  · rw [List.mem_singleton, eq_lineFeed_iff] at hmem
    omega
  · split at hmem
    · simp only [List.mem_cons, List.not_mem_nil, or_false, eq_lineFeed_iff] at hmem
      omega
    · split at hmem <;>
        simp only [List.mem_cons, List.not_mem_nil, or_false, eq_lineFeed_iff] at hmem <;>
        omega

end Text

/-! ### Positions in bytes -/

namespace Position

/-- The place right after some bytes: the line feeds among them, and the bytes since the last. -/
def afterBytes (before : List UInt8) : Position :=
  ⟨before.count Text.lineFeed, (before.reverse.takeWhile (· != Text.lineFeed)).length⟩

theorem afterBytes_concat_lineFeed (before : List UInt8) :
    afterBytes (before ++ [Text.lineFeed]) = ⟨before.count Text.lineFeed + 1, 0⟩ := by
  rw [afterBytes, List.count_append, List.count_singleton_self, List.reverse_concat]
  rfl

theorem afterBytes_append_of_not_mem (before : List UInt8) {more : List UInt8}
    (h : Text.lineFeed ∉ more) : afterBytes (before ++ more)
      = ⟨before.count Text.lineFeed, more.length + (afterBytes before).column⟩ := by
  have hother : ∀ b ∈ more.reverse, (b != Text.lineFeed) = true := by
    intro b hb
    rw [bne_iff_ne]
    rintro rfl
    exact h (List.mem_reverse.mp hb)
  rw [afterBytes, List.count_append, List.count_eq_zero.mpr h, List.reverse_append,
    List.takeWhile_append_of_pos hother, List.length_append, List.length_reverse]
  rfl

/-- **Counting characters and counting bytes agree.** -/
theorem after_eq_afterBytes (cs : List Char) : after cs = afterBytes (Text.bytes cs) := by
  induction cs using List.reverseRecOn with
  | nil => rfl
  | append_singleton cs c ih =>
    obtain ⟨hrow, hcolumn⟩ := Position.mk.inj ih
    rw [Text.bytes_append, Text.bytes_singleton, after, sinceBreak, List.count_append,
      List.reverse_concat, List.takeWhile_cons]
    by_cases hc : c = '\n'
    · subst hc
      have hbytes : String.utf8EncodeChar '\n' = [Text.lineFeed] := by decide
      rw [hbytes, afterBytes_concat_lineFeed, ← hrow]
      rfl
    · have hbreak : (c != '\n') = true := bne_iff_ne.mpr hc
      have hcount : [c].count '\n' = 0 := List.count_eq_zero.mpr (by simpa using Ne.symm hc)
      rw [afterBytes_append_of_not_mem _ (Text.lineFeed_not_mem hc), hcount, hbreak, ← hrow,
        String.length_utf8EncodeChar, afterBytes, ← hcolumn]
      rfl

end Position

/-- The lines between two positions. -/
def LineRange.between (start stop : Position) : LineRange :=
  ⟨start.row + 1, if stop.column = 0 ∧ start.row < stop.row then stop.row else stop.row + 1⟩

/-! ### Stretches of bytes -/

namespace Bytes

/-- The line that holds the byte at an offset, counted from one. -/
def lineOf (bytes : List UInt8) (i : Nat) : Nat :=
  1 + (bytes.take i).count Text.lineFeed

/-- The number of lines.  A line feed ends a line, and bytes behind the last one are a line too. -/
def lineCount (bytes : List UInt8) : Nat :=
  bytes.count Text.lineFeed + if bytes.getLast?.any (· != Text.lineFeed) then 1 else 0

/-- The lines that a stretch of bytes is given. -/
def lines (bytes : List UInt8) (start stop : Nat) : LineRange :=
  .between (.afterBytes (bytes.take start)) (.afterBytes (bytes.take stop))

variable {bytes : List UInt8} {start stop i j : Nat}

theorem lineOf_succ (hi : i < bytes.length) :
    lineOf bytes (i + 1) = lineOf bytes i + if bytes[i]? = some Text.lineFeed then 1 else 0 := by
  rw [lineOf, lineOf, List.take_succ_eq_append_getElem hi, List.count_append, List.count_singleton,
    List.getElem?_eq_getElem hi]
  simp only [beq_iff_eq, Option.some.injEq]
  omega

theorem lineOf_mono (hij : i ≤ j) : lineOf bytes i ≤ lineOf bytes j := by
  have hfront : bytes.take i <+: bytes.take j := List.take_prefix_take_left hij
  exact Nat.add_le_add_left (hfront.sublist.count_le Text.lineFeed) 1

/-- From one byte to the next the line grows by one at most, so no line between is left out. -/
theorem exists_lineOf_eq {n : Nat} (hij : i ≤ j) (hj : j < bytes.length)
    (hlow : lineOf bytes i ≤ n) (hhigh : n ≤ lineOf bytes j) :
    ∃ k, i ≤ k ∧ k ≤ j ∧ lineOf bytes k = n := by
  obtain ⟨d, rfl⟩ := Nat.exists_eq_add_of_le hij
  induction d with
  | zero => exact ⟨i, hij, hij, Nat.le_antisymm hlow hhigh⟩
  | succ d ih =>
    by_cases hn : n ≤ lineOf bytes (i + d)
    · obtain ⟨k, hik, hkd, hk⟩ := ih (by omega) (by omega) hn
      exact ⟨k, hik, by omega, hk⟩
    · have hstep := @lineOf_succ bytes (i + d) (by omega)
      rw [← Nat.add_assoc] at hhigh
      refine ⟨i + d + 1, by omega, by omega, ?_⟩
      split at hstep <;> omega

/-- **The first and the last line** of a stretch of bytes are those of its first and of its last
byte, whether it ends in a line feed or not. -/
theorem lines_eq (hne : start < stop) (hstop : stop ≤ bytes.length) :
    lines bytes start stop = ⟨lineOf bytes start, lineOf bytes (stop - 1)⟩ := by
  obtain ⟨last, rfl⟩ : ∃ last, stop = last + 1 := ⟨stop - 1, by omega⟩
  have hmono : lineOf bytes start ≤ lineOf bytes last := lineOf_mono (by omega)
  rw [lineOf, lineOf] at hmono
  rw [lines, LineRange.between, Nat.add_sub_cancel, lineOf, lineOf,
    List.take_succ_eq_append_getElem (by omega)]
  refine LineRange.mk.injEq .. ▸ ⟨Nat.add_comm .., ?_⟩
  by_cases hfeed : bytes[last] = Text.lineFeed
  · -- The line feed ends the last line, and the position behind it is the start of the next.
    have hrow : (Position.afterBytes (bytes.take start)).row
        < (bytes.take last).count Text.lineFeed + 1 := by
      show (bytes.take start).count Text.lineFeed < _
      omega
    rw [hfeed, Position.afterBytes_concat_lineFeed]
    simp only [hrow, and_self, ite_true]
    omega
  · rw [Position.afterBytes_append_of_not_mem _ (by simpa using Ne.symm hfeed)]
    have hcolumn : [bytes[last]].length + (Position.afterBytes (bytes.take last)).column ≠ 0 := by
      rw [List.length_singleton]
      omega
    simp only [hcolumn, false_and, ite_false]
    omega

/-- **The lines of a stretch of bytes** are precisely those that hold one of its bytes. -/
theorem mem_lines_iff (hne : start < stop) (hstop : stop ≤ bytes.length) {n : Nat} :
    (lines bytes start stop).first ≤ n ∧ n ≤ (lines bytes start stop).last ↔
      ∃ i, start ≤ i ∧ i < stop ∧ lineOf bytes i = n := by
  rw [lines_eq hne hstop]
  constructor
  · rintro ⟨hlow, hhigh⟩
    obtain ⟨i, hstart, hlast, hi⟩ := exists_lineOf_eq (by omega) (by omega) hlow hhigh
    exact ⟨i, hstart, by omega, hi⟩
  · rintro ⟨i, hstart, hstop', rfl⟩
    exact ⟨lineOf_mono hstart, lineOf_mono (by omega)⟩

theorem lineOf_le_lineCount (hi : i < bytes.length) : lineOf bytes i ≤ lineCount bytes := by
  cases bytes using List.reverseRecOn with
  | nil => exact absurd hi (Nat.not_lt_zero i)
  | append_singleton front b =>
    rw [List.length_append, List.length_singleton] at hi
    have hcount : (front.take i).count Text.lineFeed ≤ front.count Text.lineFeed :=
      (List.take_sublist i front).count_le Text.lineFeed
    rw [lineOf, lineCount, List.take_append_of_le_length (by omega), List.count_append,
      List.getLast?_concat, List.count_singleton, Option.any_some]
    by_cases hb : b = Text.lineFeed <;> simp [hb] <;> omega

/-- A line feed behind a byte that is none adds no line. -/
theorem lines_succ (hne : start < stop) (hother : bytes[stop - 1]? ≠ some Text.lineFeed)
    (hfeed : bytes[stop]? = some Text.lineFeed) :
    lines bytes start (stop + 1) = lines bytes start stop := by
  obtain ⟨hstop, -⟩ := List.getElem?_eq_some_iff.mp hfeed
  have hline : lineOf bytes (stop - 1 + 1) = lineOf bytes (stop - 1) := by
    rw [lineOf_succ (by omega), if_neg hother, Nat.add_zero]
  rw [Nat.sub_add_cancel (by omega)] at hline
  rw [lines_eq hne (by omega), lines_eq (by omega) (by omega), Nat.add_sub_cancel, hline]

end Bytes

/-! ### Comments -/

namespace Span

/-- The number of bytes before a span. -/
def byteStart (s : Span) (source : List Char) : Nat :=
  Text.byteLength (source.take s.start)

/-- The number of bytes up to the end of a span. -/
def byteStop (s : Span) (source : List Char) : Nat :=
  Text.byteLength (source.take s.stop)

/-- The lines of a span are those of its bytes. -/
theorem lines_eq_bytes (s : Span) (source : List Char) :
    s.lines source = Bytes.lines (Text.bytes source) (s.byteStart source) (s.byteStop source) := by
  rw [Bytes.lines, byteStart, byteStop, ← Text.bytes_take, ← Text.bytes_take,
    ← Position.after_eq_afterBytes, ← Position.after_eq_afterBytes]
  rfl

end Span

/-- **The lines of a comment are exact.**  Any stretch of the bytes of a source text that is not
empty is given the line of its first byte and the line of its last byte, and the lines from the one
to the other are precisely those that hold a byte of it.  So they are lines of the text, and owning
the line feed behind it makes no difference.  A comment is given the lines of its bytes. -/
theorem Comment.lines_exact (source : List Char) (start stop : Nat) (hne : start < stop)
    (hstop : stop ≤ Text.byteLength source) :
    let bytes := Text.bytes source
    let lines := LineRange.between (.afterBytes (bytes.take start)) (.afterBytes (bytes.take stop))
    (∀ node : Tree, node.span.byteStart source = start → node.span.byteStop source = stop →
      (ofNode source node).lines = lines) ∧
    lines.first = 1 + (bytes.take start).count Text.lineFeed ∧
    lines.last = 1 + (bytes.take (stop - 1)).count Text.lineFeed ∧
    (∀ n, lines.first ≤ n ∧ n ≤ lines.last ↔
      ∃ i, start ≤ i ∧ i < stop ∧ 1 + (bytes.take i).count Text.lineFeed = n) ∧
    1 ≤ lines.first ∧ lines.first ≤ lines.last ∧ lines.last ≤ Bytes.lineCount bytes ∧
    (bytes[stop - 1]? ≠ some Text.lineFeed → bytes[stop]? = some Text.lineFeed →
      LineRange.between (.afterBytes (bytes.take start)) (.afterBytes (bytes.take (stop + 1)))
        = lines) := by
  intro bytes lines
  have hlength : stop ≤ bytes.length := (Text.length_bytes source).symm ▸ hstop
  have heq : lines = ⟨Bytes.lineOf bytes start, Bytes.lineOf bytes (stop - 1)⟩ :=
    Bytes.lines_eq hne hlength
  refine ⟨?_, congrArg LineRange.first heq, congrArg LineRange.last heq,
    fun n => Bytes.mem_lines_iff hne hlength, Nat.le_add_left 1 _, ?_, ?_,
    Bytes.lines_succ hne⟩
  · rintro node rfl rfl
    exact node.span.lines_eq_bytes source
  · rw [heq]
    exact Bytes.lineOf_mono (by omega)
  · rw [heq]
    exact Bytes.lineOf_le_lineCount (by omega)

/-- A comment of three lines, one of them empty, that holds a character of two bytes: its lines are
those of its nine bytes, also when it owns the line feed behind it. -/
theorem Comment.lines_exact_block :
    let source := "/* é\n\n*/\n".toList
    (ofNode source (.node "comment" ⟨0, 8⟩ .sound [])).lines = ⟨1, 3⟩ ∧
    (∀ n, 1 ≤ n ∧ n ≤ 3 ↔
      ∃ i, 0 ≤ i ∧ i < 9 ∧ 1 + ((Text.bytes source).take i).count Text.lineFeed = n) ∧
    (ofNode source (.node "comment" ⟨0, 9⟩ .sound [])).lines = ⟨1, 3⟩ := by
  intro source
  have hlines : LineRange.between (.afterBytes ((Text.bytes source).take 0))
      (.afterBytes ((Text.bytes source).take 9)) = ⟨1, 3⟩ := by decide
  obtain ⟨hnode, -, -, hmem, -, -, -, hfeed⟩ :=
    lines_exact source 0 9 (by decide) (by decide)
  obtain ⟨hnode', -⟩ := lines_exact source 0 10 (by decide) (by decide)
  rw [hlines] at hnode hmem hfeed
  refine ⟨hnode _ (by decide) (by decide), hmem, ?_⟩
  rw [hnode' _ (by decide) (by decide)]
  exact hfeed (by decide) (by decide)

end CodeNotes
