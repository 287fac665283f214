import CodeNotes.Pattern.Ignore

/-!
# Putting patterns of files to skip together

The patterns of files to skip are put together before any path is compared with them.  What does
that is an *engine*, and it can refuse patterns each of which is well formed, because what it makes
of them gets too large.  Which patterns it refuses is its own affair, so the engine is a parameter
of everything that puts patterns together.

The standard engine compares fixed texts as they are and makes automata of the other patterns: one
of each pattern that ends in a fixed extension, and one of all others together.  A pattern must not
be nested too deeply and an automaton must not take too much room.
-/

namespace CodeNotes.Ignore

/-- What patterns are put together by. -/
class Engine where
  /-- Why patterns cannot be put together, in words. -/
  refusal? (patterns : List (List Token)) : Option String

namespace Automaton

/-! ### Patterns without an automaton -/

/-- Whether tokens are a text. -/
def isFixed (ts : List Token) : Bool :=
  !ts.isEmpty && ts.all fun
    | .char _ => true
    | _ => false

/-- Whether a pattern is a text that paths start with. -/
def isFront (ts : List Token) : Bool :=
  match ts.reverse with
  | [.pathEnd] => true
  | .pathEnd :: front | .anyRun :: front | front => isFixed front

/-- Whether a pattern is a text that paths end with. -/
def isBack (ts : List Token) : Bool :=
  match ts with
  | [.pathStart, .anyRun, .char '/'] | [.anyRun, .char '/'] => false
  | .pathStart :: .anyRun :: back | .pathStart :: back | .anyRun :: back | back => isFixed back

/-- Whether a pattern ends in a fixed extension. -/
def endsInExtension (ts : List Token) : Bool :=
  let rest := ts.reverse.dropWhile fun
    | .char c => c != '.' && c != '/'
    | _ => false
  match rest with
  | .char '.' :: _ => true
  | _ => false

/-! ### The expression of a pattern -/

/-- A byte in an expression. -/
def byteText (b : UInt8) : String :=
  let c := Char.ofNat b.toNat
  if b.toNat < 128 then
    let mark := if "\\.+*?()|[]\x7b\x7d^$#&-~".contains c then "\\" else ""
    mark ++ String.singleton c
  else "\\x" ++ String.ofList (Nat.toDigits 16 b.toNat)

/-- A character in an expression. -/
def charText (c : Char) : String :=
  String.join ((bytesOf c).map byteText)

mutual

/-- The expression of tokens, one after another. -/
def text : List Token → String
  | [] => ""
  | t :: ts => textOfToken t ++ text ts

/-- The expression of a token. -/
def textOfToken : Token → String
  | .char c => charText c
  | .anyByte => "."
  | .anyRun => ".*"
  | .pathStart => "(?:/?|.*/)"
  | .pathEnd => "/.*"
  | .pathMiddle => "(?:/|/.*/)"
  | .bytes negated ranges =>
    let inner := ranges.map fun (first, last) =>
      if first == last then charText first else charText first ++ "-" ++ charText last
    "[" ++ (if negated then "^" else "") ++ String.join inner ++ "]"
  | .alternatives branches =>
    match texts branches with
    | [] => ""
    | written => "(?:" ++ "|".intercalate written ++ ")"

/-- The expressions of branches; void branches do not count. -/
def texts : List (List Token) → List String
  | [] => []
  | b :: bs => if isVoid b then texts bs else text b :: texts bs

end

/-- A pattern as it is made into an automaton: `**` alone matches everything. -/
def normal : List Token → List Token
  | [.pathStart] => [.anyRun]
  | ts => ts

/-! ### Limits -/

/-- How deep a pattern can be nested. -/
def nestingLimit : Nat := 250

/-- How many bytes an automaton can take. -/
def roomLimit : Nat := 10 * 1024 * 1024

/-- How many expressions stand one after another for a token. -/
def width : Token → Nat
  | .char c => (bytesOf c).length
  | .pathEnd => 2
  | .alternatives branches => if areVoid branches then 0 else 1
  | _ => 1

/-- How many expressions stand one after another for tokens. -/
def widthOfAll (ts : List Token) : Nat :=
  ts.foldr (fun t rest => width t + rest) 0

/-- How many branches are not void. -/
def branchCount (branches : List (List Token)) : Nat :=
  branches.countP fun b => !isVoid b

mutual

/-- How deep tokens are nested. -/
def nesting : List Token → Nat
  | [] => 0
  | t :: ts => max (nestingOfToken t) (nesting ts)

/-- How deep a token is nested. -/
def nestingOfToken : Token → Nat
  | .char _ | .anyByte => 0
  | .anyRun | .pathEnd => 1
  | .pathStart | .pathMiddle => 4
  | .bytes _ ranges => if ranges.length > 1 then 2 else 1
  | .alternatives branches =>
    if areVoid branches then 0
    else 1 + (if branchCount branches > 1 then 1 else 0) + nestingOfBranches branches

/-- How deep branches are nested; several expressions in a branch are one level more. -/
def nestingOfBranches : List (List Token) → Nat
  | [] => 0
  | b :: bs =>
    max ((if widthOfAll b > 1 then 1 else 0) + nesting b) (nestingOfBranches bs)

end

/-- The bytes that a class of bytes takes: a state for each end of it, and its ranges. -/
def classRoom (negated : Bool) (ranges : List (Char × Char)) : Nat :=
  let member (n : Nat) : Bool := inRanges ranges n.toUInt8 != negated
  let runs := (List.range 256).countP fun n => member n && (n == 0 || !member (n - 1))
  let bytes := (List.range 256).countP member
  if bytes ≤ 1 then 32 else if runs = 1 then 64 else 64 + 8 * runs

mutual

/-- The bytes that tokens take in an automaton. -/
def room : List Token → Nat
  | [] => 0
  | t :: ts => roomOfToken t + room ts

/-- The bytes that a token takes in an automaton. -/
def roomOfToken : Token → Nat
  | .char c => 32 * (bytesOf c).length
  | .anyByte => 64
  | .anyRun => 104
  | .pathStart => 312
  | .pathEnd => 136
  | .pathMiddle => 272
  | .bytes negated ranges => classRoom negated ranges
  | .alternatives branches =>
    let count := branchCount branches
    roomOfBranches branches + if count > 1 then 64 + 4 * count else 0

/-- The bytes that branches take in an automaton. -/
def roomOfBranches : List (List Token) → Nat
  | [] => 0
  | b :: bs => room b + roomOfBranches bs

end

/-- The bytes that patterns take in an automaton, each by itself. -/
def roomOfPatterns (patterns : List (List Token)) : Nat :=
  patterns.foldr (fun ts rest => room (normal ts) + 160 + rest) 0

/-- The bytes of the automaton of several patterns. -/
def totalRoom (patterns : List (List Token)) : Nat :=
  roomOfPatterns patterns + 32 +
    if patterns.length > 1 then 64 + 4 * patterns.length else 0

/-- Why no automaton can be made of several patterns, in words. -/
def fault? (patterns : List (List Token)) : Option String :=
  match patterns.findIdx? fun ts => nesting (normal ts) + 1 > nestingLimit with
  | some i => some ("error parsing pattern " ++ i.repr)
  | none => if totalRoom patterns > roomLimit then some "error building NFA" else none

/-- Why no automaton can be made of a pattern that ends in a fixed extension, in words. -/
def faultAlone? (ts : List Token) : Option String :=
  (fault? [ts]).map fun fault =>
    "error parsing glob '(?-u)^" ++ text (normal ts) ++ "$': " ++ fault

/-- Why no automata can be made of patterns, in words. -/
def refusal? (patterns : List (List Token)) : Option String :=
  let (alone, together) :=
    (patterns.filter fun ts => !isFront ts && !isBack ts).partition endsInExtension
  (alone.findSome? faultAlone?).or (fault? together)

end Automaton

/-- The standard engine. -/
instance : Engine where
  refusal? := Automaton.refusal?

end CodeNotes.Ignore
