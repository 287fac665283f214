/-!
# White space

The characters that Unicode calls white space, and the trims built on them.  A *break* is a carriage
return or a line feed; a *blank* is any other white space, so it never ends a line.
-/

namespace CodeNotes.Text

/-- Whether a character has the Unicode property `White_Space`. -/
def isSpace (c : Char) : Bool :=
  let n := c.toNat
  (9 ≤ n && n ≤ 13) || n == 0x20 || n == 0x85 || n == 0xA0 || n == 0x1680 ||
    (0x2000 ≤ n && n ≤ 0x200A) || n == 0x2028 || n == 0x2029 || n == 0x202F || n == 0x205F ||
    n == 0x3000

/-- A carriage return or a line feed. -/
def isBreak (c : Char) : Bool :=
  c == '\r' || c == '\n'

/-- White space that does not end a line. -/
def isBlank (c : Char) : Bool :=
  isSpace c && !isBreak c

/-- An ASCII decimal digit. -/
def isDigit (c : Char) : Bool :=
  '0' ≤ c && c ≤ '9'

/-- The number of bytes that characters take. -/
def byteLength : List Char → Nat
  | [] => 0
  | c :: cs => c.utf8Size + byteLength cs

/-- Drops the longest run at the end whose members all satisfy `p`. -/
def dropEndWhile {α : Type} (p : α → Bool) (l : List α) : List α :=
  (l.reverse.dropWhile p).reverse

/-- Removes white space at the start. -/
def trimStart (cs : List Char) : List Char :=
  cs.dropWhile isSpace

/-- Removes white space at the end. -/
def trimEnd (cs : List Char) : List Char :=
  dropEndWhile isSpace cs

/-- Removes white space at both ends. -/
def trim (cs : List Char) : List Char :=
  trimEnd (trimStart cs)

/-- The text after `pre`, when `cs` starts with it. -/
def afterPrefix? (pre cs : List Char) : Option (List Char) :=
  if pre.isPrefixOf cs then some (cs.drop pre.length) else none

/-- The text before `suf`, when `cs` ends with it. -/
def beforeSuffix? (suf cs : List Char) : Option (List Char) :=
  (afterPrefix? suf.reverse cs.reverse).map List.reverse

/-! ### Laws -/

theorem isSpace_of_isBreak {c : Char} (h : isBreak c = true) : isSpace c = true := by
  simp only [isBreak, Bool.or_eq_true, beq_iff_eq] at h
  rcases h with rfl | rfl <;> rfl

@[simp]
theorem afterPrefix?_append (pre cs : List Char) : afterPrefix? pre (pre ++ cs) = some cs := by
  simp [afterPrefix?]

@[simp]
theorem beforeSuffix?_append (suf cs : List Char) : beforeSuffix? suf (cs ++ suf) = some cs := by
  simp [beforeSuffix?]

end CodeNotes.Text
