import CodeNotes.Grammar.Lexicon
import CodeNotes.Text.Name

/-!
# Tokens of Rust

A string, a raw string, a character and a number are one token each.  A raw string ends at a quote
that as many hash signs follow as precede its opening quote.  A number with a fraction or an
exponent is a floating-point number, and wins over the whole number at its start.
-/

namespace CodeNotes.Grammar.Rust

/-! ### Names -/

/-- The end of the name that starts at an offset, or the offset itself. -/
def wordEnd (text : Array Char) (i : Nat) : Nat :=
  let start :=
    if standsAt text ['r', '#'] i && Text.isNameStart (charAt text (i + 2)) then i + 2 else i
  if Text.isNameStart (charAt text start) then skipWhile text Text.isNameRest start else i

/-- Turns the end of a run into the end of a token that must not be empty. -/
def nonEmpty (i stop : Nat) : Option Nat :=
  if stop > i then some stop else none

/-- A name that stands for a part of a macro's input, such as `$x`. -/
def metavariable (text : Array Char) (i : Nat) : Option Nat :=
  let c := charAt text (i + 1)
  if charAt text i == '$' && (c == '_' || c.isAlpha) then
    some (skipWhile text Text.isNameRest (i + 1))
  else none

/-! ### Text -/

/-- A hexadecimal digit. -/
def isHex (c : Char) : Bool :=
  c.isDigit || ('a' ≤ c && c ≤ 'f') || ('A' ≤ c && c ≤ 'F')

/-- The end of an escape sequence. -/
def escape (text : Array Char) (i : Nat) : Option Nat :=
  let hex (start count : Nat) : Bool :=
    (List.range count).all fun k => isHex (charAt text (start + k))
  let c := charAt text (i + 1)
  if charAt text i != '\\' || c == '\x00' then none
  else if c == 'x' then if hex (i + 2) 2 then some (i + 4) else none
  else if c == 'u' then
    if charAt text (i + 2) == '\x7b' then
      let j := skipWhile text isHex (i + 3)
      if j > i + 3 && charAt text j == '\x7d' then some (j + 1) else none
    else if hex (i + 2) 4 then some (i + 6)
    else none
  else some (i + 2)

/-- The end of a string, from an offset after its opening quote. -/
def stringEnd (text : Array Char) : Nat → Nat → Option Nat
  | 0, _ => none
  | fuel + 1, i =>
    if i ≥ text.size then none
    else if charAt text i == '"' then some (i + 1)
    else if charAt text i == '\\' then (escape text i).bind (stringEnd text fuel)
    else stringEnd text fuel (i + 1)

/-- A string, which may be one of bytes or one with a NUL at its end. -/
def string (text : Array Char) (i : Nat) : Option Nat :=
  let c := charAt text i
  let start := if c == 'b' || c == 'c' then i + 1 else i
  if charAt text start == '"' then stringEnd text (text.size - start) (start + 1) else none

/-- The end of a raw string with the given number of hash signs. -/
def rawStringEnd (hashes : Nat) (text : Array Char) : Nat → Nat → Option Nat
  | 0, _ => none
  | fuel + 1, i =>
    if i ≥ text.size then none
    else if charAt text i == '"' && standsAt text (List.replicate hashes '#') (i + 1) then
      some (i + 1 + hashes)
    else rawStringEnd hashes text fuel (i + 1)

/-- A raw string. -/
def rawString (text : Array Char) (i : Nat) : Option Nat :=
  let c := charAt text i
  let start := if c == 'b' || c == 'c' then i + 1 else i
  if charAt text start != 'r' then none
  else
    let quote := skipWhile text (· == '#') (start + 1)
    if charAt text quote == '"' then
      rawStringEnd (quote - (start + 1)) text (text.size - quote) (quote + 1)
    else none

/-- A character, or nothing, in single quotes. -/
def character (text : Array Char) (i : Nat) : Option Nat :=
  let start := if charAt text i == 'b' then i + 1 else i
  let closed (j : Nat) : Option Nat := if charAt text j == '\'' then some (j + 1) else none
  if charAt text start != '\'' then none
  else
    let c := charAt text (start + 1)
    if c == '\\' then (escape text (start + 1)).bind closed
    else if c == '\'' then some (start + 2)
    else if c == '\x00' then none
    else closed (start + 2)

/-! ### Numbers -/

/-- The types that can be written after a number. -/
def numberTypes : List String :=
  ["u8", "i8", "u16", "i16", "u32", "i32", "u64", "i64", "u128", "i128", "isize", "usize", "f32",
    "f64"]

/-- A whole number with an optional type. -/
def integer (text : Array Char) (i : Nat) : Option Nat :=
  let typed (j : Nat) : Nat :=
    (numberTypes.filter fun t => standsAt text t.toList j).foldl
      (fun best t => max best (j + t.length)) j
  let based (isDigit : Char → Bool) : Option Nat :=
    let j := skipWhile text (fun c => isDigit c || c == '_') (i + 2)
    if j > i + 2 then some (typed j) else none
  let decimal : Option Nat :=
    if (charAt text i).isDigit then
      some (typed (skipWhile text (fun c => c.isDigit || c == '_') i))
    else none
  let mark := charAt text (i + 1)
  if charAt text i == '0' && mark == 'x' then (based isHex).or decimal
  else if charAt text i == '0' && mark == 'b' then
    (based fun c => c == '0' || c == '1').or decimal
  else if charAt text i == '0' && mark == 'o' then (based fun c => '0' ≤ c && c ≤ '7').or decimal
  else decimal

/-- A number with a fraction or an exponent.  A dot before a letter or a second dot starts no
fraction. -/
def float (text : Array Char) (i : Nat) : Option Nat :=
  let isDigit (c : Char) : Bool := c.isDigit || c == '_'
  let typed (j : Nat) : Nat :=
    let c := charAt text j
    if (c == 'u' || c == 'i' || c == 'f') && (charAt text (j + 1)).isDigit then
      skipWhile text Char.isDigit (j + 1)
    else j
  let exponent (j : Nat) (fraction : Bool) : Option Nat :=
    let c := charAt text j
    if c == 'e' || c == 'E' then
      let sign := charAt text (j + 1)
      let k := if sign == '+' || sign == '-' then j + 2 else j + 1
      if isDigit (charAt text k) then some (typed (skipWhile text isDigit k)) else some j
    else if fraction then some (typed j)
    else none
  if !(charAt text i).isDigit then none
  else
    let j := skipWhile text isDigit i
    if charAt text j == '.' then
      let c := charAt text (j + 1)
      if c.isAlpha || c == '.' then none else exponent (skipWhile text isDigit (j + 1)) true
    else exponent j false

/-! ### The lexicon -/

/-- The line with an interpreter at the start of a file: `#!` and a line that does not start with a
bracket. -/
def interpreterLine (text : Array Char) (i : Nat) : Option Nat :=
  if !standsAt text ['#', '!'] i || charAt text (i + 2) == '[' then none
  else
    let j := skipWhile text (fun c => c != '\n' && c != '\x00') (i + 2)
    if charAt text j == '\n' then some (j + 1) else none

/-- What stands between the repetitions of a part of a macro. -/
def repetitionMark (text : Array Char) (i : Nat) : Option Nat :=
  nonEmpty i (skipWhile text (fun c => c != '+' && c != '*' && c != '?' && c != '\x00') i)

/-- The token classes.  The bracket that opens type arguments is told from the operator of the same
form: where both are possible it is the bracket. -/
def classes : List TokenClass :=
  [{ name := "identifier", scan := fun t i => nonEmpty i (wordEnd t i) },
    { name := "metavariable", scan := metavariable },
    { name := "string", scan := string },
    { name := "rawString", scan := rawString, rank := 1 },
    { name := "character", scan := character },
    { name := "integer", scan := integer },
    { name := "float", scan := float, rank := 1 },
    { name := "interpreterLine", scan := interpreterLine },
    { name := "repetitionMark", scan := repetitionMark, adjacent := true, rank := 1 },
    { name := "openArguments"
      scan := fun t i => if charAt t i == '<' then some (i + 1) else none
      rank := 1 }]

/-- The lexicon of Rust. -/
def lexicon : Lexicon Unit where
  classes := classes
  isSpace := Trivia.isSpace .rust
  comment := commentAt .rust '/'
  wordEnd := wordEnd
  initial := ()
  context := fun _ _ _ _ => .nothing

end CodeNotes.Grammar.Rust
