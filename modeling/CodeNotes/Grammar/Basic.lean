/-!
# Grammars

A grammar is a list of named rules over terminals.  A terminal is either a fixed text or the name of
a token class, whose shape the lexicon of the language knows.  No rule but the first may match the
empty text.
-/

namespace CodeNotes.Grammar

/-- What the grammar sees of a token. -/
inductive Terminal where
  /-- A token with exactly this text. -/
  | text (s : String)
  /-- A token of the class with this name. -/
  | kind (name : String)
deriving DecidableEq, Hashable, Repr

/-- What a rule matches. -/
inductive Body where
  /-- The empty text. -/
  | done
  | terminal (t : Terminal)
  /-- What the rule with this name matches. -/
  | rule (name : String)
  | both (first second : Body)
  | either (left right : Body)
  /-- Any number of repetitions. -/
  | many (item : Body)
deriving Repr

namespace Body

/-- One after the other. -/
def seq (parts : List Body) : Body :=
  parts.foldr both done

/-- One of several. -/
def oneOf : List Body → Body
  | [] => done
  | [b] => b
  | b :: bs => either b (oneOf bs)

/-- Nothing, or the item. -/
def opt (item : Body) : Body :=
  either item done

/-- One or more repetitions. -/
def some (item : Body) : Body :=
  both item (many item)

/-- One or more items with a separator between them. -/
def sepBy (separator item : Body) : Body :=
  both item (many (both separator item))

/-- A fixed text. -/
def lit (s : String) : Body :=
  terminal (.text s)

/-- A token class. -/
def cls (name : String) : Body :=
  terminal (.kind name)

/-- One of several fixed texts. -/
def anyLit (texts : List String) : Body :=
  oneOf (texts.map lit)

/-- Something in parentheses. -/
def inParens (b : Body) : Body := seq [lit "(", b, lit ")"]

/-- Something in brackets. -/
def inBrackets (b : Body) : Body := seq [lit "[", b, lit "]"]

/-- Something in braces. -/
def inBraces (b : Body) : Body := seq [lit "\x7b", b, lit "\x7d"]

/-- One or more items with commas between them. -/
def commaSome (b : Body) : Body := sepBy (lit ",") b

/-- Any number of items with commas between them. -/
def commaMany (b : Body) : Body := opt (commaSome b)

/-- Items with commas between them, where items may be left out. -/
def commaHoles (b : Body) : Body := seq [opt b, many (seq [lit ",", opt b])]

end Body

/-- A named rule. -/
structure Rule where
  name : String
  body : Body

/-- The rules of a grammar with some of them replaced and others added. -/
def Rule.extend (base changes : List Rule) : List Rule :=
  base.map (fun r => (changes.find? (·.name == r.name)).getD r) ++
    changes.filter fun r => !(base.any (·.name == r.name))

end CodeNotes.Grammar
