import CodeNotes.Pattern.Wildcard

/-!
# Patterns of files to skip

Patterns of this kind are compared with a whole path, byte by byte, so `?`, `*` and brackets also
stand for separators.  `**` between separators stands for any number of directories, braces hold
alternatives, and a backslash takes away the meaning of the next character.

Reading keeps a stack of open branches: the pattern itself at the bottom, and above it the
alternatives of the braces that are not closed.
-/

namespace CodeNotes.Ignore

/-- A part of a pattern. -/
inductive Token where
  | char (c : Char)
  | anyByte
  | anyRun
  /-- `**` and a separator at the start. -/
  | pathStart
  /-- A separator and `**` at the end. -/
  | pathEnd
  /-- `**` between two separators. -/
  | pathMiddle
  | bytes (negated : Bool) (ranges : List (Char × Char))
  | alternatives (branches : List (List Token))

/-- What is wrong with a pattern. -/
inductive Flaw where
  | unclosedBrackets
  | reversedRange (first last : Char)
  | unopenedBraces
  | unclosedBraces
  | danglingEscape
deriving DecidableEq, Repr

/-- The wording of a flaw. -/
def Flaw.message : Flaw → String
  | .unclosedBrackets => "unclosed character class; missing ']'"
  | .reversedRange first last =>
    "invalid range; '" ++ String.singleton first ++ "' > '" ++ String.singleton last ++ "'"
  | .unopenedBraces =>
    "unopened alternate group; missing '\x7b' (maybe escape '\x7d' with '[\x7d]'?)"
  | .unclosedBraces =>
    "unclosed alternate group; missing '\x7d' (maybe escape '\x7b' with '[\x7b]'?)"
  | .danglingEscape => "dangling '\\'"

/-! ### Reading -/

/-- The state of reading: the open branches, innermost first and each with its last token first, and
for each open brace the number of branches below it. -/
structure Draft where
  branches : List (List Token) := [[]]
  braces : List Nat := []

namespace Draft

/-- The tokens of the innermost branch, last first. -/
def current (d : Draft) : List Token :=
  d.branches.headD []

/-- Replaces the innermost branch. -/
def setCurrent (d : Draft) (tokens : List Token) : Draft :=
  { d with branches := tokens :: d.branches.tail }

/-- Adds a token to the innermost branch. -/
def push (d : Draft) (t : Token) : Draft :=
  d.setCurrent (t :: d.current)

end Draft

/-- Reads the ranges of brackets after their opening and a sign of negation.  `first` tells that no
character has been read and `waiting` that a range lacks its end. -/
def rangesFrom : List Char → Bool → Bool → List (Char × Char) →
    Except Flaw (List (Char × Char) × List Char)
  | [], _, _, _ => .error .unclosedBrackets
  | c :: cs, first, waiting, done =>
    if c == ']' && !first then .ok ((if waiting then ('-', '-') :: done else done).reverse, cs)
    else if c == '-' && !first && !waiting then rangesFrom cs false true done
    else
      match waiting, done with
      | true, (a, _) :: rest =>
        if c < a then .error (.reversedRange a c) else rangesFrom cs false false ((a, c) :: rest)
      | _, _ => rangesFrom cs false false ((c, c) :: done)

/-- Reads brackets after their opening. -/
def brackets (cs : List Char) : Except Flaw (Token × List Char) :=
  let (negated, cs) :=
    match cs with
    | '!' :: rest | '^' :: rest => (true, rest)
    | _ => (false, cs)
  (rangesFrom cs true false []).map fun (ranges, rest) => (.bytes negated ranges, rest)

/-- Takes up two stars after the character `previous`: the state after them and the rest. -/
def twoStars (d : Draft) (previous : Option Char) (cs : List Char) : Draft × List Char :=
  let plain := ((d.push .anyRun).push .anyRun, cs)
  let inBraces := d.branches.length ≥ 2
  if d.current.isEmpty then
    match cs with
    | [] => (d.push .pathStart, [])
    | '/' :: rest => (d.push .pathStart, rest)
    | _ => plain
  else if previous != some '/' &&
      !(inBraces && (previous == some ',' || previous == some '\x7b')) then
    plain
  else
    -- what stands before is a separator, or a token that has taken one in
    let join (t : Token) (rest : List Char) : Draft × List Char :=
      match d.current with
      | .pathStart :: _ | .pathEnd :: _ => (d, rest)
      | _ => (d.setCurrent (t :: d.current.tail), rest)
    match cs with
    | [] => join .pathEnd []
    | '/' :: rest => join .pathMiddle rest
    | c :: _ => if inBraces && (c == ',' || c == '\x7d') then join .pathEnd cs else plain

/-- Closes the innermost braces. -/
def closeBraces (d : Draft) : Except Flaw Draft :=
  match d.braces with
  | [] => .error .unopenedBraces
  | below :: braces =>
    let count := d.branches.length - below
    let inner := (d.branches.take count).reverse.map List.reverse
    .ok (Draft.push ⟨d.branches.drop count, braces⟩ (.alternatives inner))

/-- Reads a pattern. -/
def readFrom : Nat → Draft → Option Char → List Char → Except Flaw Draft
  | 0, d, _, _ => .ok d
  | _, d, _, [] => .ok d
  | fuel + 1, d, previous, c :: cs =>
    match c with
    | '?' => readFrom fuel (d.push .anyByte) (some c) cs
    | '*' =>
      match cs with
      | '*' :: rest =>
        let (d, left) := twoStars d previous rest
        -- a separator that was taken in is what stands before the rest
        let last := if left.length < rest.length then '/' else '*'
        readFrom fuel d (some last) left
      | _ => readFrom fuel (d.push .anyRun) (some c) cs
    | '[' =>
      match brackets cs with
      | .ok (t, rest) => readFrom fuel (d.push t) (some ']') rest
      | .error e => .error e
    | '\x7b' =>
      readFrom fuel ⟨[] :: d.branches, d.branches.length :: d.braces⟩ (some c) cs
    | '\x7d' => (closeBraces d).bind fun d => readFrom fuel d (some c) cs
    | ',' =>
      if d.braces.isEmpty then readFrom fuel (d.push (.char c)) (some c) cs
      else readFrom fuel { d with branches := [] :: d.branches } (some c) cs
    | '\\' =>
      match cs with
      | [] => .error .danglingEscape
      | x :: rest => readFrom fuel (d.push (.char x)) (some x) rest
    | c => readFrom fuel (d.push (.char c)) (some c) cs

/-- The tokens of a pattern. -/
def tokens (text : String) : Except Flaw (List Token) :=
  (readFrom (text.length + 1) {} none text.toList).bind fun d =>
    match d.branches with
    | [only] => .ok only.reverse
    | _ => .error .unclosedBraces

/-! ### Matching -/

/-- The bytes of a character. -/
def bytesOf (c : Char) : List UInt8 :=
  (String.singleton c).toUTF8.toList

/-- Whether a byte is meant by ranges of characters, each of which is written as its bytes: the
characters at the ends stand for each of their bytes, and the bytes between the last byte of one and
the first byte of the other are meant too. -/
def inRanges (ranges : List (Char × Char)) (b : UInt8) : Bool :=
  ranges.any fun (first, last) =>
    let low := bytesOf first
    let high := bytesOf last
    if first == last then low.contains b
    else
      low.contains b || high.contains b ||
        match low.getLast?, high.head? with
        | some l, some h => l ≤ b && b ≤ h
        | _, _ => false

mutual

/-- Whether a branch matches nothing but the empty text because nothing was written in it. -/
def isVoid : List Token → Bool
  | [] => true
  | t :: ts => isVoidToken t && isVoid ts

/-- Whether a token stands for nothing that was written. -/
def isVoidToken : Token → Bool
  | .alternatives branches => areVoid branches
  | _ => false

/-- Whether all branches are void. -/
def areVoid : List (List Token) → Bool
  | [] => true
  | b :: bs => isVoid b && areVoid bs

end

/-- What is left after one byte that satisfies a test. -/
def afterByte (p : UInt8 → Bool) : List UInt8 → List (List UInt8)
  | b :: bs => if p b then [bs] else []
  | [] => []

/-- What is left after a fixed run of bytes. -/
def afterBytes : List UInt8 → List UInt8 → List (List UInt8)
  | [], bs => [bs]
  | x :: xs, b :: bs => if x == b then afterBytes xs bs else []
  | _ :: _, [] => []

/-- The separator. -/
def slash : UInt8 := 0x2F

/-- What can be left after any run of bytes and a separator. -/
def afterSlash (bs : List UInt8) : List (List UInt8) :=
  (Pattern.suffixes bs).flatMap (afterByte (· == slash))

mutual

/-- What can be left of a text after a token. -/
def afterToken (t : Token) (bs : List UInt8) : List (List UInt8) :=
  match t with
  | .char c => afterBytes (bytesOf c) bs
  | .anyByte => afterByte (fun _ => true) bs
  | .anyRun => Pattern.suffixes bs
  | .pathStart => bs :: afterSlash bs
  | .pathEnd => (afterByte (· == slash) bs).flatMap Pattern.suffixes
  | .pathMiddle => (afterByte (· == slash) bs).flatMap fun rest => rest :: afterSlash rest
  | .bytes negated ranges => afterByte (fun b => inRanges ranges b != negated) bs
  | .alternatives branches => if areVoid branches then [bs] else afterAny branches bs

/-- What can be left of any of several texts after tokens, one after another; each is kept once. -/
def afterAll (ts : List Token) (texts : List (List UInt8)) : List (List UInt8) :=
  match ts with
  | [] => texts
  | t :: ts => afterAll ts (texts.flatMap fun bs => afterToken t bs).eraseDups

/-- What can be left of a text after one of several branches; void branches do not count. -/
def afterAny (branches : List (List Token)) (bs : List UInt8) : List (List UInt8) :=
  match branches with
  | [] => []
  | b :: rest => (if isVoid b then [] else afterAll b [bs]) ++ afterAny rest bs

end

/-- Whether a pattern matches a whole text.  `**` alone matches everything. -/
def matchesBytes (ts : List Token) (bs : List UInt8) : Bool :=
  match ts with
  | [.pathStart] => true
  | ts => (afterAll ts [bs]).any List.isEmpty

/-- Whether a pattern matches a path. -/
def matchesText (ts : List Token) (text : String) : Bool :=
  matchesBytes ts text.toUTF8.toList

end CodeNotes.Ignore
