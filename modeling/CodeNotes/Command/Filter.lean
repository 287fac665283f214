import CodeNotes.Journal
import CodeNotes.Text.Space

/-!
# Filters

A filter says which records of a journal are shown.  It is a list of rules, written with commas in
between: `target=level` is about the records whose target starts with a text, a level alone about
all records, and a target alone shows all of its records.  Of the rules about a record the one with
the longest target counts; a record that no rule is about is not shown.  After a `/` stands a text
that shown records have to contain.
-/

namespace CodeNotes

/-- What a rule lets through: nothing, or everything up to a level. -/
abbrev Threshold := Option Level

/-- A rule of a filter. -/
structure FilterRule where
  /-- What the target of a record has to start with. -/
  target : Option String
  threshold : Threshold
deriving DecidableEq

/-- Which records are shown. -/
structure Filter where
  rules : List FilterRule := []
  /-- What the text of a record has to contain. -/
  fragment : Option String := none
deriving DecidableEq

namespace Filter

/-! ### Reading filters -/

/-- A text without white space at both ends. -/
def trimmed (text : String) : String :=
  String.ofList (Text.trim text.toList)

/-- The threshold with a name, in any case. -/
def threshold? (name : String) : Option Threshold :=
  match String.ofList (name.toList.map Char.toUpper) with
  | "OFF" => some none
  | "ERROR" => some (some .error)
  | "WARN" => some (some .warn)
  | "INFO" => some (some .info)
  | "DEBUG" => some (some .debug)
  | "TRACE" => some (some .trace)
  | _ => none

/-- Lets everything through. -/
def everything : Threshold := some .trace

/-- Reads a rule; one that makes no sense is told by its text. -/
def rule (text : String) : Except String FilterRule :=
  match text.splitOn "=" with
  | [one] =>
    match threshold? one with
    | some threshold => .ok ⟨none, threshold⟩
    | none => .ok ⟨some one, everything⟩
  | [target, level] =>
    let level := trimmed level
    if level.isEmpty then .ok ⟨some target, everything⟩
    else
      match threshold? level with
      | some threshold => .ok ⟨some target, threshold⟩
      | none => .error level
  | _ => .error text

/-- Adds a rule in the place of the one about the same target. -/
def add (f : Filter) (r : FilterRule) : Filter :=
  if f.rules.any fun old => old.target == r.target then
    { f with rules := f.rules.map fun old => if old.target == r.target then r else old }
  else { f with rules := f.rules ++ [r] }

/-- Reads rules; what makes no sense is passed over and listed. -/
def ofRules (texts : List String) : Filter × List String :=
  texts.foldl
    (fun (f, flaws) text =>
      if text.isEmpty then (f, flaws)
      else
        match rule text with
        | .ok r => (f.add r, flaws)
        | .error flaw => (f, flaws ++ ["'" ++ flaw ++ "'"]))
    ({}, [])

/-- Reads a filter, with the parts of it that make no sense. -/
def read (text : String) : Filter × List String :=
  match text.splitOn "/" with
  | [rules] => ofRules ((rules.splitOn ",").map trimmed)
  | [rules, fragment] =>
    let (f, flaws) := ofRules ((rules.splitOn ",").map trimmed)
    ({ f with fragment := some fragment }, flaws)
  | _ => ({}, ["'" ++ text ++ "' (too many '/'s)"])

/-! ### Using filters -/

/-- Without rules errors are shown. -/
def effective (f : Filter) : List FilterRule :=
  if f.rules.isEmpty then [⟨none, some .error⟩] else f.rules

/-- The length of a rule's target. -/
def weight (r : FilterRule) : Nat :=
  (r.target.getD "").utf8ByteSize

/-- Whether a rule is about a target. -/
def isAbout (target : String) (r : FilterRule) : Bool :=
  match r.target with
  | none => true
  | some start => start.toList.isPrefixOf target.toList

/-- The rule that counts for a target: the longest, and of equally long ones the last. -/
def ruleFor? (f : Filter) (target : String) : Option FilterRule :=
  ((f.effective.mergeSort fun a b => weight a ≤ weight b).filter (isAbout target)).getLast?

/-- Whether a threshold lets a level through. -/
def admits (threshold : Threshold) (level : Level) : Bool :=
  threshold.any fun top => level.rank ≤ top.rank

/-- Whether a text contains another one. -/
def contains (part : List Char) : List Char → Bool
  | [] => part.isEmpty
  | c :: cs => part.isPrefixOf (c :: cs) || contains part cs

/-- Whether a record is shown. -/
def shows (f : Filter) (r : Record) : Bool :=
  (f.ruleFor? r.target).any (fun rule => admits rule.threshold r.level) &&
    f.fragment.all fun part => contains part.toList r.text.toList

/-- The records that are shown. -/
def select (f : Filter) (journal : Journal) : Journal :=
  journal.filter f.shows

end Filter

end CodeNotes
