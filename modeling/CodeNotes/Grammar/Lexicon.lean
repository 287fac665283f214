import CodeNotes.Grammar.Basic
import CodeNotes.Source.Trivia

/-!
# Lexicons

How a language is cut into tokens.  What the next token can be depends on what the grammar expects,
so a lexicon is asked for the next token together with the set of *wanted* terminals.

Some tokens cannot be described by their own text alone: a line end that ends a statement, an
indentation, the inside of a string.  Those come from the `context` function of the lexicon, which
is asked first and may carry a state from token to token.  Everything else is chosen by rank, then
by length, and a fixed text wins over a token class of the same length.
-/

namespace CodeNotes.Grammar

/-- A class of tokens. -/
structure TokenClass where
  name : String
  /-- The end of the longest token of the class that starts at an offset. -/
  scan : Array Char → Nat → Option Nat
  /-- Whether the token must follow the previous one without white space. -/
  adjacent : Bool := false
  /-- A class of higher rank wins over longer tokens of lower rank. -/
  rank : Int := 0

/-- What the context of a language finds at an offset. -/
inductive Found (σ : Type) where
  /-- Nothing that depends on context. -/
  | nothing
  /-- A token of the named class, the offset after it, and the state after it. -/
  | token (name : String) (stop : Nat) (state : σ)
  /-- A stretch of the given kind that the grammar does not see. -/
  | aside (kind : String) (stop : Nat)

/-- How a language is cut into tokens, with a state of type `σ`. -/
structure Lexicon (σ : Type) where
  classes : List TokenClass
  /-- Characters between tokens that mean nothing. -/
  isSpace : Char → Bool
  /-- The kind and the end of the comment that starts at an offset. -/
  comment : Array Char → Nat → Option (String × Nat)
  /-- The end of the word that starts at an offset; the offset itself if none does. -/
  wordEnd : Array Char → Nat → Nat
  initial : σ
  /-- Finds the tokens that depend on context, given which terminals are wanted. -/
  context : (Terminal → Bool) → Array Char → Nat → σ → Found σ
  /-- Texts of which a shorter one may be meant although a longer one is there. -/
  splittable : List String := []
  /-- A class of free text and the terminals that can stand beside it: if others are wanted too,
  both readings are tried. -/
  freeText : Option (String × List Terminal) := none

/-- A token that was read. -/
structure Token (σ : Type) where
  terminal : Terminal
  span : Span
  state : σ

/-- What was read at one place: the tokens that can be meant there, the leaves passed over on the
way (last first), and whether nothing but the end of the text was left. -/
structure Reading (σ : Type) where
  tokens : List (Token σ)
  leaves : List Leaf
  atEnd : Bool

/-! ### Characters at offsets -/

/-- The character at an offset, and NUL after the end. -/
def charAt (text : Array Char) (i : Nat) : Char :=
  text.getD i '\x00'

/-- The first offset from `i` on whose character does not satisfy `p`, or the end. -/
def skipWhile (text : Array Char) (p : Char → Bool) (i : Nat) : Nat :=
  if h : i < text.size then
    if p text[i] then skipWhile text p (i + 1) else i
  else i
termination_by text.size - i

/-- Whether `word` stands at an offset. -/
def standsAt (text : Array Char) (word : List Char) (i : Nat) : Bool :=
  match word with
  | [] => true
  | c :: cs => i < text.size && charAt text i == c && standsAt text cs (i + 1)

/-- The kind and the end of the comment of a language at an offset; `opener` is the character that
all its comments start with.  Most comments end on their line, so it is looked at alone first. -/
def commentAt (language : Language) (opener : Char) (text : Array Char) (i : Nat) :
    Option (String × Nat) :=
  let before (stop : Nat) : Option (String × Nat) :=
    (Trivia.comment? language (text.extract i stop).toList).map fun (kind, length) =>
      (kind, i + length)
  if charAt text i == opener then
    match before (skipWhile text (· != '\n') i + 1) with
    | some found => some found
    | none => before text.size
  else none

/-! ### Choosing a token -/

/-- A token that matches at some offset. -/
structure Candidate where
  terminal : Terminal
  stop : Nat
  rank : Int
  fixed : Bool

/-- Whether a candidate is to be taken instead of another one that was found before. -/
def Candidate.beats (new old : Candidate) : Bool :=
  if new.rank != old.rank then new.rank > old.rank
  else if new.stop != old.stop then new.stop > old.stop
  else new.fixed && !old.fixed

/-- The best of several candidates, the first one among equals. -/
def Candidate.best? (l : List Candidate) : Option Candidate :=
  l.foldl
    (fun best c =>
      match best with
      | none => some c
      | some b => if c.beats b then some c else best)
    none

namespace Lexicon

variable {σ : Type}

/-- Whether a fixed text is a word, so that it must not be cut out of a longer one. -/
def isWord (lexicon : Lexicon σ) (s : String) : Bool :=
  let cs := s.toList.toArray
  lexicon.wordEnd cs 0 == cs.size && cs.size > 0

/-- The candidates among the wanted terminals at an offset; `adjacent` tells whether classes that
must follow the previous token are looked for, or the others. -/
def candidates (lexicon : Lexicon σ) (wanted : List Terminal) (text : Array Char) (i : Nat)
    (adjacent : Bool) : List Candidate :=
  let wordStop := lexicon.wordEnd text i
  wanted.filterMap fun t =>
    match t with
    | .text s =>
      if adjacent then none
      else
        let stop := i + s.length
        if !standsAt text s.toList i then none
        else if lexicon.isWord s && wordStop != stop then none
        else some ⟨t, stop, 0, true⟩
    | .kind name =>
      match lexicon.classes.find? (·.name == name) with
      | some c =>
        if c.adjacent != adjacent then none
        else (c.scan text i).map fun stop => ⟨t, stop, c.rank, false⟩
      | none => none

/-- The shorter texts that can be meant instead of the one found. -/
def shorter (lexicon : Lexicon σ) (wanted : List Terminal) (text : Array Char) (i : Nat)
    (found : Candidate) : List Candidate :=
  match found.terminal with
  | .text s =>
    if lexicon.splittable.contains s then
      wanted.filterMap fun t =>
        match t with
        | .text u =>
          if u != s && lexicon.splittable.contains u && standsAt text u.toList i then
            some ⟨t, i + u.length, 0, true⟩
          else none
        | .kind _ => none
    else []
  | .kind _ => []

/-- Reads on from an offset until a token is found: white space is skipped and comments become
leaves.  Each round passes over at least one character, so the fuel bounds the rounds. -/
def readFrom (lexicon : Lexicon σ) (wanted : List Terminal) (text : Array Char) :
    Nat → Nat → σ → List Leaf → Reading σ
  | 0, _, _, leaves => ⟨[], leaves, false⟩
  | fuel + 1, i, state, leaves =>
    match lexicon.context wanted.contains text i state with
    | .token name stop state' => ⟨[⟨.kind name, ⟨i, stop⟩, state'⟩], leaves, false⟩
    | .aside kind stop =>
      readFrom lexicon wanted text fuel stop state (⟨kind, ⟨i, stop⟩⟩ :: leaves)
    | .nothing =>
      let j := skipWhile text lexicon.isSpace i
      let close := Candidate.best? (lexicon.candidates wanted text i true)
      let far := Candidate.best? (lexicon.candidates wanted text j false)
      let token (start : Nat) (c : Candidate) : Token σ := ⟨c.terminal, ⟨start, c.stop⟩, state⟩
      let apart (c : Candidate) : Reading σ :=
        ⟨(c :: lexicon.shorter wanted text j c).map (token j), leaves, false⟩
      match close with
      | some c =>
        let beaten :=
          match far with
          | some f => i == j && f.beats c
          | none => false
        match if i == j then lexicon.comment text j else none with
        | some (kind, stop) =>
          if c.rank < 0 then
            readFrom lexicon wanted text fuel stop state (⟨kind, ⟨j, stop⟩⟩ :: leaves)
          else if beaten then far.elim ⟨[], leaves, false⟩ apart
          else ⟨[token i c], leaves, false⟩
        | none =>
          if beaten then far.elim ⟨[], leaves, false⟩ apart else ⟨[token i c], leaves, false⟩
      | none =>
        match lexicon.comment text j, far with
        | some (kind, stop), some c =>
          if stop > c.stop && c.rank ≤ 0 then
            readFrom lexicon wanted text fuel stop state (⟨kind, ⟨j, stop⟩⟩ :: leaves)
          else apart c
        | some (kind, stop), none =>
          readFrom lexicon wanted text fuel stop state (⟨kind, ⟨j, stop⟩⟩ :: leaves)
        | none, some c => apart c
        | none, none => ⟨[], leaves, j ≥ text.size⟩

/-- The sets of wanted terminals to read with: usually one, and two where free text and other tokens
are both possible. -/
def splitWanted (lexicon : Lexicon σ) (wanted : List Terminal) : List (List Terminal) :=
  match lexicon.freeText with
  | some (name, beside) =>
    if wanted.contains (.kind name) then
      let (inside, outside) := wanted.partition fun t => t == .kind name || beside.contains t
      if outside.isEmpty then [wanted] else [inside, outside]
    else [wanted]
  | none => [wanted]

end Lexicon

end CodeNotes.Grammar
