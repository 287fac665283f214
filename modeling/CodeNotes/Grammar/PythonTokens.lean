import CodeNotes.Grammar.Lexicon
import CodeNotes.Text.Name

/-!
# Tokens of Python

Blocks are told by indentation, and a line end ends a statement where one can end.  Both are tokens
without text of their own, `newline`, `indent` and `dedent`, which are found by looking past the
white space and the comments that follow.  A comment that is indented as much as the open block
belongs to it, so the block is not closed before such a comment has been read.

Strings are read in pieces: what opens one says how the pieces and the end are found, and strings
can stand inside the braces of other strings.  So the state of the lexicon holds the widths of the
open blocks and the openings of the open strings.
-/

namespace CodeNotes.Grammar.Python

/-- How a string was opened. -/
structure Opening where
  quote : Char
  triple : Bool := false
  raw : Bool := false
  bytes : Bool := false
  /-- Whether braces hold expressions. -/
  format : Bool := false
deriving DecidableEq, Repr

/-- What has to be known of the text before an offset. -/
structure Layout where
  /-- The widths of the open blocks, innermost first. -/
  blocks : List Nat := [0]
  /-- The open strings, innermost first. -/
  strings : List Opening := []
  /-- Whether the string that was opened last, and has not ended, has expressions in it. -/
  inFormat : Bool := false
deriving Repr

/-! ### Numbers and names -/

/-- The end of the name that starts at an offset, or the offset itself. -/
def wordEnd (text : Array Char) (i : Nat) : Nat :=
  if Text.isNameStart (charAt text i) then skipWhile text Text.isNameRest i else i

/-- Turns the end of a run into the end of a token that must not be empty. -/
def nonEmpty (i stop : Nat) : Option Nat :=
  if stop > i then some stop else none

/-- A hexadecimal digit. -/
def isHex (c : Char) : Bool :=
  c.isDigit || ('a' ≤ c && c ≤ 'f') || ('A' ≤ c && c ≤ 'F')

/-- The end of one or more digits, each of which an underscore may follow. -/
def decimals (text : Array Char) (i : Nat) : Option Nat :=
  let rec go : Nat → Nat → Nat
    | 0, j => j
    | fuel + 1, j =>
      let k := skipWhile text Char.isDigit j
      if k == j then j
      else if charAt text k == '_' then go fuel (k + 1)
      else k
  nonEmpty i (go (text.size - i) i)

/-- The end of one or more digits of a kind, each of which an underscore may precede. -/
def basedDigits (isDigit : Char → Bool) (text : Array Char) (i : Nat) : Option Nat :=
  let rec go : Nat → Nat → Nat
    | 0, j => j
    | fuel + 1, j =>
      let start := if charAt text j == '_' then j + 1 else j
      if isDigit (charAt text start) then go fuel (start + 1) else j
  nonEmpty i (go (text.size - i) i)

/-- Steps over a character that is one of the two given. -/
def optionally (a b : Char) (text : Array Char) (i : Nat) : Nat :=
  if charAt text i == a || charAt text i == b then i + 1 else i

/-- A whole number. -/
def integer (text : Array Char) (i : Nat) : Option Nat :=
  let long := optionally 'l' 'L' text
  let decimal := (decimals text i).map fun j => max (long j) (optionally 'j' 'J' text j)
  let based (isDigit : Char → Bool) : Option Nat :=
    ((basedDigits isDigit text (i + 2)).map long).or decimal
  let mark := (charAt text (i + 1)).toLower
  if charAt text i != '0' then decimal
  else if mark == 'x' then based isHex
  else if mark == 'o' then based fun c => '0' ≤ c && c ≤ '7'
  else if mark == 'b' then based fun c => c == '0' || c == '1'
  else decimal

/-- A number with a fraction or an exponent. -/
def float (text : Array Char) (i : Nat) : Option Nat :=
  let exponent? (j : Nat) : Option Nat :=
    if (charAt text j).toLower == 'e' then decimals text (optionally '+' '-' text (j + 1)) else none
  let exponent (j : Nat) : Nat := (exponent? j).getD j
  let imaginary := optionally 'j' 'J' text
  match decimals text i with
  | some j =>
    if charAt text j == '.' then
      some (imaginary (exponent ((decimals text (j + 1)).getD (j + 1))))
    else (exponent? j).map imaginary
  | none =>
    if charAt text i == '.' then (decimals text (i + 1)).map fun j => imaginary (exponent j)
    else none

/-! ### Strings -/

/-- An escape sequence of a string. -/
def escape (text : Array Char) (i : Nat) : Option Nat :=
  let hex (start count : Nat) : Option Nat :=
    if (List.range count).all fun k => isHex (charAt text (start + k)) then some (start + count)
    else none
  if charAt text i != '\\' then none
  else
    let c := charAt text (i + 1)
    if c == 'u' then hex (i + 2) 4
    else if c == 'U' then hex (i + 2) 8
    else if c == 'x' then hex (i + 2) 2
    else if c.isDigit then some (min (skipWhile text Char.isDigit (i + 1)) (i + 4))
    else if c == '\n' then some (i + 2)
    else if c == '\r' then if charAt text (i + 2) == '\n' then some (i + 3) else none
    else if "'\"abfrntv\\".toList.contains c then some (i + 2)
    else if c == 'N' && charAt text (i + 2) == '\x7b' then
      let j := skipWhile text (fun d => d != '\x7d' && d != '\x00') (i + 3)
      if j > i + 3 && charAt text j == '\x7d' then some (j + 1) else none
    else none

/-- What the inside of a string goes on with. -/
inductive Piece where
  /-- No piece. -/
  | none
  /-- Plain characters up to an offset. -/
  | content (stop : Nat)
  /-- The end of the string. -/
  | close (stop : Nat)
  /-- The text ends before the string does. -/
  | unclosed
deriving DecidableEq, Repr

/-- Steps over a line end, if there is one. -/
def afterBreak (text : Array Char) (i : Nat) : Nat :=
  if charAt text i == '\r' then if charAt text (i + 1) == '\n' then i + 2 else i + 1
  else if charAt text i == '\n' then i + 1
  else i

/-- Reads plain characters of a string that started at `start` and are known up to `i`. -/
def piece (opening : Opening) (text : Array Char) (start : Nat) : Nat → Nat → Piece
  | 0, _ => .unclosed
  | fuel + 1, i =>
    let c := charAt text i
    let sofar : Piece := if i > start then .content i else .none
    if i ≥ text.size || c == '\x00' then .unclosed
    else if opening.format && (c == '\x7b' || c == '\x7d') then sofar
    else if c == '\\' then
      let d := charAt text (i + 1)
      if opening.raw then
        let j := if d == opening.quote || d == '\\' then i + 2 else i + 1
        piece opening text start fuel (afterBreak text j)
      else if opening.bytes && (d == 'N' || d == 'u' || d == 'U') then
        piece opening text start fuel (i + 3)
      else sofar
    else if c == opening.quote then
      if opening.triple then
        if charAt text (i + 1) == c then
          if charAt text (i + 2) == c then if i > start then .content i else .close (i + 3)
          else .content (i + 2)
        else .content (i + 1)
      else if i > start then .content i
      else .close (i + 1)
    else if c == '\n' && i > start && !opening.triple then .none
    else piece opening text start fuel (i + 1)

/-- The opening of a string at an offset: letters that say how to read it, and one or three quotes.
-/
def openingAt (text : Array Char) : Nat → Nat → Opening → Option (Opening × Nat)
  | 0, _, _ => none
  | fuel + 1, i, opening =>
    let c := charAt text i
    if c == 'f' || c == 'F' then openingAt text fuel (i + 1) { opening with format := true }
    else if c == 'r' || c == 'R' then openingAt text fuel (i + 1) { opening with raw := true }
    else if c == 'b' || c == 'B' then openingAt text fuel (i + 1) { opening with bytes := true }
    else if c == 'u' || c == 'U' then openingAt text fuel (i + 1) opening
    else if c == '\x60' then some ({ opening with quote := c }, i + 1)
    else if c == '\'' || c == '"' then
      if charAt text (i + 1) == c && charAt text (i + 2) == c then
        some ({ opening with quote := c, triple := true }, i + 3)
      else some ({ opening with quote := c }, i + 1)
    else none

/-! ### Lines and blocks -/

/-- What a look past white space and comments finds. -/
structure Look where
  /-- Where the look ended. -/
  offset : Nat
  /-- Whether a line ended. -/
  lineEnd : Bool
  /-- The width of the white space at the start of the last line. -/
  width : Nat
  /-- The width before the first comment on a line of its own. -/
  comment : Option Nat

/-- Looks past white space, joined lines and, where `comments` is set, comments on later lines.
Gives nothing where there is a comment on the same line, or a stray backslash. -/
def look (comments : Bool) (text : Array Char) : Nat → Look → Option Look
  | 0, l => some l
  | fuel + 1, l =>
    let i := l.offset
    let c := charAt text i
    if i ≥ text.size then some { l with lineEnd := true, width := 0 }
    else if c == '\n' then
      look comments text fuel { l with offset := i + 1, lineEnd := true, width := 0 }
    else if c == ' ' then look comments text fuel { l with offset := i + 1, width := l.width + 1 }
    else if c == '\r' || c == '\x0c' then
      look comments text fuel { l with offset := i + 1, width := 0 }
    else if c == '\t' then look comments text fuel { l with offset := i + 1, width := l.width + 8 }
    else if c == '#' && comments then
      if l.lineEnd then
        let j := skipWhile text (fun d => d != '\x00' && d != '\n') i
        look comments text fuel
          { l with offset := j + 1, width := 0, comment := l.comment.or (some l.width) }
      else none
    else if c == '\\' then
      let j := if charAt text (i + 1) == '\r' then i + 2 else i + 1
      if j ≥ text.size || charAt text j == '\n' then
        look comments text fuel { l with offset := j + 1 }
      else none
    else some l

/-- The token that a line end stands for at an offset, with the widths of the open blocks after it.
-/
def lineToken (wanted : Terminal → Bool) (text : Array Char) (l : Look) (state : Layout) :
    Option (String × List Nat) :=
  let width := state.blocks.headD 0
  let inBrackets := wanted (.text ")") || wanted (.text "]") || wanted (.text "\x7d")
  let quoteNext := ['"', '\'', '\x60'].contains (charAt text l.offset)
  let newline := wanted (.kind "newline")
  let mayClose := wanted (.kind "dedent") ||
    (!newline && !(wanted (.kind "stringStart") && quoteNext) && !inBrackets)
  -- a comment as wide as the block still belongs to it
  let belongs := match l.comment with
    | some w => decide (width ≤ w)
    | none => false
  if !l.lineEnd then none
  else if wanted (.kind "indent") && l.width > width then some ("indent", l.width :: state.blocks)
  else if mayClose && l.width < width && !state.inFormat && !belongs then
    some ("dedent", state.blocks.tail)
  else if newline then some ("newline", state.blocks)
  else none

/-- The end of a backslash that joins a line with the next one, after white space. -/
def joinedLine (text : Array Char) (i : Nat) : Option Nat :=
  let j := skipWhile text (Trivia.isSpace .python) i
  if charAt text j != '\\' then none
  else if charAt text (j + 1) == '\n' || charAt text (j + 1) == '\x00' then
    some (min text.size (j + 2))
  else if charAt text (j + 1) == '\r' && charAt text (j + 2) == '\n' then some (j + 3)
  else none

/-- The tokens of lines, of blocks and of the openings of strings. -/
def betweenTokens (wanted : Terminal → Bool) (text : Array Char) (i : Nat) (state : Layout) :
    Found Layout :=
  let joined : Found Layout :=
    match if wanted (.kind "escape") then none else joinedLine text i with
    | some stop => .aside "line_continuation" stop
    | none => .nothing
  let comments := wanted (.kind "indent") || wanted (.kind "dedent") ||
    wanted (.kind "newline") || wanted (.text "except")
  match look comments text (text.size - i + 1) ⟨i, false, 0, none⟩ with
  | none => joined
  | some l =>
    match lineToken wanted text l state with
    | some (name, blocks) => .token name i { state with blocks }
    | none =>
      if wanted (.kind "stringStart") && l.comment.isNone then
        match openingAt text (text.size - l.offset + 1) l.offset { quote := ' ' } with
        | some (opening, stop) =>
          .token "stringStart" stop
            { state with strings := opening :: state.strings, inFormat := opening.format }
        | none => joined
      else joined

/-- The tokens that depend on context. -/
def context (wanted : Terminal → Bool) (text : Array Char) (i : Nat) (state : Layout) :
    Found Layout :=
  match if wanted (.kind "content") then state.strings.head? else none with
  | none => betweenTokens wanted text i state
  | some opening =>
    let c := charAt text i
    if opening.format && (c == '\x7b' || c == '\x7d') then
      if charAt text (i + 1) == c then .token "doubledBrace" (i + 2) state else .nothing
    else
      match piece opening text i (text.size - i + 1) i with
      | .content stop => .token "content" stop state
      | .close stop =>
        .token "stringEnd" stop { state with strings := state.strings.tail, inFormat := false }
      | .none => .nothing
      | .unclosed => betweenTokens wanted text i state

/-! ### The lexicon -/

/-- The token classes. -/
def classes : List TokenClass :=
  [{ name := "identifier", scan := fun t i => nonEmpty i (wordEnd t i) },
    { name := "integer", scan := integer },
    { name := "float", scan := float },
    { name := "escape", scan := escape, adjacent := true, rank := 1 },
    { name := "backslash"
      scan := fun t i => if charAt t i == '\\' then some (i + 1) else none
      adjacent := true },
    { name := "conversion"
      scan := fun t i =>
        if charAt t i == '!' && 'a' ≤ charAt t (i + 1) && charAt t (i + 1) ≤ 'z' then some (i + 2)
        else none },
    { name := "formatRun"
      scan := fun t i => nonEmpty i (skipWhile t (fun c => !"\x7b\x7d\n\x00".toList.contains c) i)
      adjacent := true
      rank := 1 }]

/-- The lexicon of Python. -/
def lexicon : Lexicon Layout where
  classes := classes
  isSpace := Trivia.isSpace .python
  comment := commentAt .python '#'
  wordEnd := wordEnd
  initial := {}
  context := context

end CodeNotes.Grammar.Python
