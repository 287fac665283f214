import CodeNotes.Grammar.Lexicon
import CodeNotes.Text.Space

/-!
# Tokens of JavaScript and TypeScript

The token classes that the two languages share, and the tokens that depend on context: the
semicolon that a line end stands for, the text of templates and of elements, the question mark of a
conditional expression, and comments in the style of HTML.

A line end stands for a semicolon when a statement may end there and what follows cannot continue
it. The two languages differ in what they take for a continuation, which is what `SemicolonRules`
says.
-/

namespace CodeNotes.Grammar.Script

/-! ### Characters -/

/-- ASCII white space. -/
def isPlainSpace (c : Char) : Bool :=
  c == ' ' || ('\t' ≤ c && c ≤ '\r')

/-- A line feed or a Unicode line or paragraph separator. -/
def isLineEnd (c : Char) : Bool :=
  c == '\n' || c == '\u2028' || c == '\u2029'

/-- An ASCII letter. -/
def isLetter (c : Char) : Bool :=
  ('a' ≤ c && c ≤ 'z') || ('A' ≤ c && c ≤ 'Z')

/-- A hexadecimal digit. -/
def isHex (c : Char) : Bool :=
  Text.isDigit c || ('a' ≤ c && c ≤ 'f') || ('A' ≤ c && c ≤ 'F')

/-- The ASCII characters that no name holds. -/
def punctuation : List Char :=
  ":;`\"'@#.,|^&<=>+-*/\\%?!~()[]\x7b\x7d".toList

/-- A character that can start a name. -/
def isNameStart (c : Char) : Bool :=
  ' ' < c && !Trivia.isSpace .javaScript c && !Text.isDigit c && !punctuation.contains c

/-- A character that can go on a name. -/
def isNameRest (c : Char) : Bool :=
  isNameStart c || Text.isDigit c

/-! ### Token classes -/

/-- The end of a `\u` escape of a character in a name. -/
def nameEscape (text : Array Char) (i : Nat) : Option Nat :=
  if charAt text i == '\\' && charAt text (i + 1) == 'u' then
    if charAt text (i + 2) == '\x7b' then
      let j := skipWhile text isHex (i + 3)
      if j > i + 3 && charAt text j == '\x7d' then some (j + 1) else none
    else
      let digits := (List.range 4).map fun k => charAt text (i + 2 + k)
      if digits.all isHex then some (i + 6) else none
  else none

/-- The end of a run of name characters. -/
def nameRest (text : Array Char) : Nat → Nat → Nat
  | 0, i => i
  | fuel + 1, i =>
    if isNameRest (charAt text i) then nameRest text fuel (i + 1)
    else
      match nameEscape text i with
      | some j => nameRest text fuel j
      | none => i

/-- The end of the name that starts at an offset, or the offset itself. -/
def nameEnd (text : Array Char) (i : Nat) : Nat :=
  if isNameStart (charAt text i) then nameRest text (text.size - i) (i + 1)
  else
    match nameEscape text i with
    | some j => nameRest text (text.size - i) j
    | none => i

/-- Turns the end of a run into the end of a token that must not be empty. -/
def nonEmpty (i stop : Nat) : Option Nat :=
  if stop > i then some stop else none

/-- The end of one or more digits of a kind, with single underscores between them. -/
def digitRun (text : Array Char) (isDigit : Char → Bool) (i : Nat) : Option Nat :=
  let rec go : Nat → Nat → Nat
    | 0, j => j
    | fuel + 1, j =>
      if isDigit (charAt text j) then go fuel (j + 1)
      else if charAt text j == '_' && isDigit (charAt text (j + 1)) then go fuel (j + 2)
      else j
  if isDigit (charAt text i) then some (go (text.size - i) (i + 1)) else none

/-- The end of an optional exponent. -/
def exponent (text : Array Char) (i : Nat) : Nat :=
  if charAt text i == 'e' || charAt text i == 'E' then
    let j := if charAt text (i + 1) == '+' || charAt text (i + 1) == '-' then i + 2 else i + 1
    (digitRun text Text.isDigit j).getD i
  else i

/-- The end of a number. -/
def number (text : Array Char) (i : Nat) : Option Nat :=
  let suffix (j : Nat) : Nat := if charAt text j == 'n' then j + 1 else j
  let mark := charAt text (i + 1)
  let based (isDigit : Char → Bool) : Option Nat :=
    match digitRun text isDigit (i + 2) with
    | some j => some (suffix j)
    | none => some (i + 1)
  if charAt text i == '0' && (mark == 'x' || mark == 'X') then based isHex
  else if charAt text i == '0' && (mark == 'b' || mark == 'B') then
    based fun c => c == '0' || c == '1'
  else if charAt text i == '0' && (mark == 'o' || mark == 'O') then
    based fun c => '0' ≤ c && c ≤ '7'
  else if charAt text i == '.' then
    (digitRun text Text.isDigit (i + 1)).map (exponent text)
  else
    match digitRun text Text.isDigit i with
    | none => none
    | some j =>
      if charAt text j == '.' then
        some (exponent text ((digitRun text Text.isDigit (j + 1)).getD (j + 1)))
      else
        let k := exponent text j
        some (if k == j then suffix j else k)

/-- The end of an escape sequence of a string. -/
def escape (text : Array Char) (i : Nat) : Option Nat :=
  if charAt text i != '\\' || i + 1 ≥ text.size then none
  else
    let c := charAt text (i + 1)
    let hex (from' count : Nat) : Bool :=
      (List.range count).all fun k => isHex (charAt text (from' + k))
    if c == 'x' then if hex (i + 2) 2 then some (i + 4) else none
    else if c == 'u' then
      if charAt text (i + 2) == '\x7b' then
        let j := skipWhile text isHex (i + 3)
        if j > i + 3 && charAt text j == '\x7d' then some (j + 1) else none
      else if hex (i + 2) 4 then some (i + 6)
      else none
    else if '0' ≤ c && c ≤ '7' then
      let j := skipWhile text (fun d => '0' ≤ d && d ≤ '7') (i + 1)
      some (min j (i + 4))
    else if c == '\r' && isLineEnd (charAt text (i + 2)) then some (i + 3)
    else if c == '\x00' then none
    else some (i + 2)

/-- The end of a run of characters other than some. -/
def runWithout (stops : List Char) (text : Array Char) (i : Nat) : Option Nat :=
  nonEmpty i (skipWhile text (fun c => c != '\x00' && !stops.contains c) i)

/-- The end of the text of a regular expression: characters up to the closing slash, where a slash
inside brackets does not close. -/
def regexPattern (text : Array Char) (i : Nat) : Option Nat :=
  let plain (c : Char) : Bool := c != '\x00' && c != '\n'
  let rec bracket : Nat → Nat → Option Nat
    | 0, _ => none
    | fuel + 1, j =>
      let c := charAt text j
      if c == ']' then some (j + 1)
      else if c == '\\' then if plain (charAt text (j + 1)) then bracket fuel (j + 2) else none
      else if plain c then bracket fuel (j + 1)
      else none
  let rec go : Nat → Nat → Nat
    | 0, j => j
    | fuel + 1, j =>
      let c := charAt text j
      if c == '[' then
        match bracket (text.size - j) (j + 1) with
        | some k => go fuel k
        | none => j
      else if c == '\\' then if plain (charAt text (j + 1)) then go fuel (j + 2) else j
      else if c == '/' || !plain c then j
      else go fuel (j + 1)
  nonEmpty i (go (text.size - i) i)

/-- The end of a character reference such as `&amp;`. -/
def characterReference (text : Array Char) (i : Nat) : Option Nat :=
  let closed (from' stop limit : Nat) : Option Nat :=
    if stop > from' && stop ≤ from' + limit && charAt text stop == ';' then some (stop + 1)
    else none
  if charAt text i != '&' then none
  else if charAt text (i + 1) == '#' then
    if charAt text (i + 2) == 'x' || charAt text (i + 2) == 'X' then
      closed (i + 3) (skipWhile text isHex (i + 3)) 6
    else closed (i + 2) (skipWhile text Text.isDigit (i + 2)) 5
  else closed (i + 1) (skipWhile text isLetter (i + 1)) 30

/-- The end of a run inside a quoted attribute of an element. -/
def attributeRun (quote : Char) (text : Array Char) (i : Nat) : Option Nat :=
  let rec go : Nat → Nat → Nat
    | 0, j => j
    | fuel + 1, j =>
      let c := charAt text j
      if c == '&' then
        let d := charAt text (j + 1)
        if d == '#' || isLetter d || d == '\x00' then j else go fuel (j + 2)
      else if c == quote || c == '\x00' then j
      else go fuel (j + 1)
  nonEmpty i (go (text.size - i) i)

/-- The end of a name with a hyphen, as elements and attributes have. -/
def hyphenName (text : Array Char) (i : Nat) : Option Nat :=
  let isPart (c : Char) : Bool := isLetter c || Text.isDigit c || c == '_' || c == '$'
  if !(isPart (charAt text i)) || Text.isDigit (charAt text i) then none
  else
    let j := skipWhile text isPart i
    if charAt text j == '-' then some (skipWhile text (fun c => isPart c || c == '-') j) else none

/-- The end of a line: everything before a line feed. -/
def restOfLine (text : Array Char) (i : Nat) : Nat :=
  skipWhile text (fun c => c != '\x00' && c != '\n') i

/-- The token classes that the two languages share.  A string is cut into runs of plain characters
and escapes; the runs have a rank of their own because a comment opening inside a string opens no
comment. -/
def classes : List TokenClass :=
  [{ name := "identifier", scan := fun t i => nonEmpty i (nameEnd t i) },
    { name := "privateName"
      scan := fun t i =>
        if charAt t i == '#' then nonEmpty (i + 1) (nameEnd t (i + 1)) else none },
    { name := "number", scan := number },
    { name := "hashBang"
      scan := fun t i => if standsAt t ['#', '!'] i then some (restOfLine t i) else none },
    { name := "doubleRun", scan := runWithout ['"', '\\', '\r', '\n'], adjacent := true,
      rank := 1 },
    { name := "singleRun", scan := runWithout ['\'', '\\', '\r', '\n'], adjacent := true,
      rank := 1 },
    { name := "escape", scan := escape, adjacent := true },
    { name := "regexPattern", scan := regexPattern, adjacent := true, rank := -1 },
    { name := "regexEnd"
      scan := fun t i => if charAt t i == '/' then some (i + 1) else none
      adjacent := true
      rank := 1 },
    { name := "regexFlags"
      scan := fun t i => nonEmpty i (skipWhile t (fun c => 'a' ≤ c && c ≤ 'z') i)
      adjacent := true },
    { name := "hyphenName", scan := hyphenName },
    { name := "characterReference", scan := characterReference },
    { name := "doubleAttributeRun", scan := attributeRun '"', adjacent := true, rank := 1 },
    { name := "singleAttributeRun", scan := attributeRun '\'', adjacent := true, rank := 1 },
    { name := "staticGetter"
      scan := fun t i =>
        if standsAt t "static".toList i then
          let j := skipWhile t Text.isSpace (i + 6)
          if j > i + 6 && standsAt t "get".toList j then
            let k := skipWhile t Text.isSpace (j + 3)
            -- the getter's name stands on a later line
            if (List.range (k - (j + 3))).any fun d => charAt t (j + 3 + d) == '\n' then some k
            else none
          else none
        else none }]

/-- The end of a block comment, from an offset after its opening. -/
def blockEnd (text : Array Char) : Nat → Nat → Option Nat
  | 0, _ => none
  | fuel + 1, i =>
    if i ≥ text.size || charAt text i == '\x00' then none
    else if charAt text i == '*' && charAt text (i + 1) == '/' then some (i + 2)
    else blockEnd text fuel (i + 1)

/-! ### Line ends as semicolons -/

/-- How comments were passed when looking ahead for a semicolon. -/
inductive Passed where
  /-- A slash that opens no comment. -/
  | slash
  /-- A block comment within a line. -/
  | withinLine
  /-- Anything else. -/
  | clear
deriving DecidableEq

/-- A look-ahead: how comments were passed, where it ended, and whether there were comments. -/
structure Ahead where
  passed : Passed
  offset : Nat
  commented : Bool

/-- Looks past white space and comments.  Unless `through` is set, the look ends after a block
comment that no slash follows. -/
def lookPast (text : Array Char) (through : Bool) : Nat → Nat → Bool → Bool → Ahead
  | 0, i, commented, _ => ⟨.clear, i, commented⟩
  | fuel + 1, i, commented, broken =>
    let j := skipWhile text isPlainSpace i
    if charAt text j != '/' then ⟨.clear, j, commented⟩
    else if charAt text (j + 1) == '/' then
      let k := skipWhile text (fun c => c != '\x00' && !isLineEnd c) (j + 2)
      lookPast text through fuel k true broken
    else if charAt text (j + 1) == '*' then
      let k := (blockEnd text (text.size - j) (j + 2)).getD text.size
      let inside := (List.range (k - j)).any fun d => isLineEnd (charAt text (j + d))
      let broken := broken || inside
      if !through && charAt text k != '/' then
        ⟨if broken then .clear else .withinLine, k, true⟩
      else lookPast text through fuel k true broken
    else ⟨.slash, j + 1, commented⟩

/-- What a language takes for the continuation of a statement on the next line. -/
structure SemicolonRules where
  /-- Whether comments before the line end are looked through. -/
  throughComments : Bool
  /-- Whether a closing brace before a colon ends no statement outside expressions. -/
  braceColon : Bool
  /-- Characters that always continue. -/
  continuing : List Char
  /-- Characters that continue an expression but not a type. -/
  continuingExpression : List Char
  /-- Whether a dot continues only when no digit follows. -/
  dotDigit : Bool

/-- Whether the word at an offset is `in` or `instanceof`. -/
def isInWord (text : Array Char) (i : Nat) : Bool :=
  (standsAt text "in".toList i && !isLetter (charAt text (i + 2))) ||
    (standsAt text "instanceof".toList i && !isLetter (charAt text (i + 10)))

/-- Whether what stands at an offset, on a later line, starts something new. -/
def startsNew (rules : SemicolonRules) (wanted : Terminal → Bool) (text : Array Char) (i : Nat) :
    Bool :=
  let c := charAt text i
  if rules.continuing.contains c then false
  else if rules.continuingExpression.contains c then !wanted (.text "||")
  else if c == '\x7b' then !wanted (.kind "signatureEnd")
  else if c == '.' then rules.dotDigit && Text.isDigit (charAt text (i + 1))
  else if c == '+' then charAt text (i + 1) == '+'
  else if c == '-' then charAt text (i + 1) == '-'
  else if c == '!' then charAt text (i + 1) != '='
  else if c == 'i' then !isInWord text i
  else true

/-- The outcome of looking for a semicolon: whether there is one, whether comments were passed, and
where the look ended. -/
structure SemicolonLook where
  found : Bool
  commented : Bool
  offset : Nat

/-- Looks whether the line or the block ends here, so that a statement may end. -/
def lookForSemicolon (rules : SemicolonRules) (wanted : Terminal → Bool) (text : Array Char) :
    Nat → Nat → Bool → SemicolonLook
  | 0, i, commented => ⟨false, commented, i⟩
  | fuel + 1, i, commented =>
    if i ≥ text.size || charAt text i == '\x00' then ⟨true, commented, i⟩
    else
      let ahead : Ahead :=
        if rules.throughComments && charAt text i == '/' then
          lookPast text false (text.size - i + 1) i commented false
        else ⟨.withinLine, i, commented⟩
      let j := ahead.offset
      let c := charAt text j
      if ahead.passed == .slash then ⟨false, ahead.commented, j⟩
      else if ahead.passed == .clear && !wanted (.text "||") && c != ',' && c != '=' then
        ⟨true, ahead.commented, j⟩
      else if c == '\x7d' then
        if rules.braceColon && charAt text (skipWhile text isPlainSpace (j + 1)) == ':' then
          ⟨wanted (.text "||"), ahead.commented, j⟩
        else ⟨true, ahead.commented, j⟩
      else if (if rules.throughComments then isLineEnd c else c == '\n') then
        let past := lookPast text true (text.size - j + 1) (j + 1) ahead.commented false
        if past.passed == .slash then ⟨false, past.commented, past.offset⟩
        else ⟨startsNew rules wanted text past.offset, past.commented, past.offset⟩
      else if !isPlainSpace c then ⟨false, ahead.commented, j⟩
      else lookForSemicolon rules wanted text fuel (j + 1) ahead.commented

/-! ### The other tokens that depend on context -/

/-- The question mark of a conditional expression: not `??`, and `?.` only before a digit.  Where
parameters can be optional, a question mark before `:`, `)` or `,` is none. -/
def conditionalMark (optionalMarks : Bool) (text : Array Char) (i : Nat) : Option Nat :=
  let j := skipWhile text isPlainSpace i
  if charAt text j != '?' then none
  else
    let c := charAt text (j + 1)
    if c == '?' then none
    else if c == '.' then if Text.isDigit (charAt text (j + 2)) then some (j + 1) else none
    else if optionalMarks then
      let d := charAt text (skipWhile text isPlainSpace (j + 1))
      if d == ':' || d == ')' || d == ',' then none else some (j + 1)
    else some (j + 1)

/-- A run of characters of a template. -/
def templateRun (text : Array Char) (i : Nat) : Option Nat :=
  let rec go : Nat → Nat → Option Nat
    | 0, _ => none
    | fuel + 1, j =>
      let c := charAt text j
      if j ≥ text.size || c == '\x00' then none
      else if c == '\x60' || c == '\\' then nonEmpty i j
      else if c == '$' && charAt text (j + 1) == '\x7b' then nonEmpty i j
      else go fuel (j + 1)
  go (text.size - i + 1) i

/-- The text between the tags of an element.  White space that spans lines is no text. -/
def elementText (text : Array Char) (i : Nat) : Option Nat :=
  let stop := skipWhile text (fun c => c != '\x00' && !"<>\x7b\x7d&".toList.contains c) i
  let rec visible : Nat → Nat → Bool → Bool
    | 0, _, _ => false
    | fuel + 1, j, atLineStart =>
      if j ≥ stop then false
      else
        let c := charAt text j
        if c == '\n' then visible fuel (j + 1) true
        else if atLineStart && isPlainSpace c then visible fuel (j + 1) true
        else true
  if visible (stop - i + 1) i false then some stop else none

/-- A comment that opens with `<!--` or `-->` and runs to the end of the line. -/
def markupComment (text : Array Char) (i : Nat) : Option Nat :=
  let j := skipWhile text (fun c => isPlainSpace c || c == '\u2028' || c == '\u2029') i
  if standsAt text "<!--".toList j || standsAt text "-->".toList j then
    some (skipWhile text (fun c => c != '\x00' && !isLineEnd c) (j + 3))
  else none

/-- The tokens that depend on context. -/
def context (rules : SemicolonRules) (optionalMarks : Bool) (wanted : Terminal → Bool)
    (text : Array Char) (i : Nat) (_ : Unit) : Found Unit :=
  let semicolon := wanted (.kind "lineEnd")
  let token (name : String) (stop : Option Nat) : Found Unit :=
    match stop with
    | some j => .token name j ()
    | none => .nothing
  if wanted (.kind "templateRun") then
    if semicolon then .nothing else token "templateRun" (templateRun text i)
  else
    match if wanted (.kind "elementText") then elementText text i else none with
    | some stop => .token "elementText" stop ()
    | none =>
      if semicolon || wanted (.kind "signatureEnd") then
        let look := lookForSemicolon rules wanted text (text.size - i + 1) i false
        if look.found then if semicolon then .token "lineEnd" i () else .nothing
        else if !look.commented && wanted (.kind "conditionalMark") &&
            charAt text look.offset == '?' then
          token "conditionalMark" (conditionalMark optionalMarks text look.offset)
        else .nothing
      else if wanted (.kind "conditionalMark") then
        token "conditionalMark" (conditionalMark optionalMarks text i)
      else if !wanted (.text "||") && !wanted (.kind "escape") &&
          !wanted (.kind "regexPattern") then
        match markupComment text i with
        | some stop => .aside "html_comment" stop
        | none => .nothing
      else .nothing

/-- The lexicon of either language. -/
def lexicon (rules : SemicolonRules) (optionalMarks : Bool) : Lexicon Unit where
  classes := classes
  isSpace := Trivia.isSpace .javaScript
  comment := commentAt .javaScript '/'
  wordEnd := nameEnd
  initial := ()
  context := context rules optionalMarks

end CodeNotes.Grammar.Script
