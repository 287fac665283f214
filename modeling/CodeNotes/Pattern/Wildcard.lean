/-!
# Wildcard patterns

A pattern is a text in which `?` stands for any character, `*` for any run of characters, brackets
for one of several characters, and `**`, as a whole part between separators, for any number of
directories.  There are no escapes: a special character is taken as it is inside brackets, which is
what `escape` makes use of.
-/

namespace CodeNotes.Pattern

/-- A range of characters; one that ends before it starts is empty. -/
structure CharRange where
  first : Char
  last : Char
deriving DecidableEq, Repr

/-- A part of a pattern. -/
inductive Token where
  | char (c : Char)
  | anyChar
  | anyRun
  /-- Any number of directories. -/
  | anyPath
  | within (ranges : List CharRange)
  | without (ranges : List CharRange)
deriving DecidableEq, Repr

/-- What is wrong with a pattern. -/
inductive Flaw where
  | wildcards
  | recursion
  | range
deriving DecidableEq, Repr

/-- The wording of a flaw. -/
def Flaw.message : Flaw → String
  | .wildcards => "wildcards are either regular \x60*\x60 or recursive \x60**\x60"
  | .recursion => "recursive wildcards must form a single path component"
  | .range => "invalid range pattern"

/-- A flaw, and the number of the character it is at. -/
structure Misuse where
  position : Nat
  flaw : Flaw
deriving DecidableEq, Repr

/-- The wording of a misuse. -/
def Misuse.message (m : Misuse) : String :=
  "Pattern syntax error near position " ++ m.position.repr ++ ": " ++ m.flaw.message

/-! ### Reading -/

/-- The ranges between brackets. -/
def ranges : List Char → List CharRange
  | a :: '-' :: b :: rest => ⟨a, b⟩ :: ranges rest
  | a :: rest => ⟨a, a⟩ :: ranges rest
  | [] => []

/-- Splits at the first closing bracket that is not the very first character. -/
def bracketed? : List Char → Option (List Char × List Char)
  | [] => none
  | first :: rest =>
    let inside := rest.takeWhile (· != ']')
    match rest.drop inside.length with
    | _ :: after => some (first :: inside, after)
    | [] => none

/-- Reads the brackets after their opening: the token, the number of characters read, and the
rest. -/
def brackets? (cs : List Char) : Option (Token × Nat × List Char) :=
  match cs with
  | '!' :: rest =>
    (bracketed? rest).map fun (inside, after) =>
      (.without (ranges inside), inside.length + 2, after)
  | _ =>
    (bracketed? cs).map fun (inside, after) => (.within (ranges inside), inside.length + 1, after)

/-- Reads a pattern whose first character has the given number; `previous` is the character before
it. -/
def tokensFrom : Nat → Nat → Option Char → List Char → Except Misuse (List Token)
  | 0, _, _, _ => .ok []
  | _, _, _, [] => .ok []
  | fuel + 1, i, previous, c :: cs =>
    match c with
    | '?' => (tokensFrom fuel (i + 1) (some c) cs).map (.anyChar :: ·)
    | '*' =>
      let more := (cs.takeWhile (· == '*')).length
      let after := cs.drop more
      match more with
      | 0 => (tokensFrom fuel (i + 1) (some c) cs).map (.anyRun :: ·)
      | 1 =>
        if previous.isNone || previous == some '/' then
          match after with
          | [] => .ok [.anyPath]
          | '/' :: rest => (tokensFrom fuel (i + 3) (some '/') rest).map (.anyPath :: ·)
          | _ => .error ⟨i + 2, .recursion⟩
        else .error ⟨i - 1, .recursion⟩
      | _ => .error ⟨i + 2, .wildcards⟩
    | '[' =>
      match brackets? cs with
      | some (token, n, rest) => (tokensFrom fuel (i + 1 + n) (some ']') rest).map (token :: ·)
      | none => .error ⟨i, .range⟩
    | c => (tokensFrom fuel (i + 1) (some c) cs).map (.char c :: ·)

/-- Reads a pattern. -/
def tokens (text : String) : Except Misuse (List Token) :=
  tokensFrom (text.length + 1) 0 none text.toList

/-- Puts each special character between brackets, so that the pattern stands for the text itself. -/
def escape (text : String) : String :=
  String.ofList (text.toList.flatMap fun c =>
    if c == '?' || c == '*' || c == '[' || c == ']' then ['[', c, ']'] else [c])

/-! ### Matching -/

/-- What can be left of a list, longest first. -/
def suffixes {α : Type} : List α → List (List α)
  | [] => [[]]
  | a :: l => (a :: l) :: suffixes l

/-- Whether a character is in one of several ranges. -/
def inRanges (l : List CharRange) (c : Char) : Bool :=
  l.any fun r => r.first ≤ c && c ≤ r.last

/-- Whether a token stands for a single character. -/
def Token.accepts : Token → Char → Bool
  | .char a, c => a == c
  | .anyChar, _ => true
  | .within l, c => inRanges l c
  | .without l, c => !inRanges l c
  | .anyRun, _ | .anyPath, _ => false

/-- Whether a pattern stands for a name. -/
def matchesName : List Token → List Char → Bool
  | [], cs => cs.isEmpty
  | .anyRun :: ts, cs => (suffixes cs).any (matchesName ts)
  | .anyPath :: ts, cs => (suffixes cs).any (matchesName ts)
  | t :: ts, c :: cs => t.accepts c && matchesName ts cs
  | _ :: _, [] => false

end CodeNotes.Pattern
