import CodeNotes.Grammar.Repair
import CodeNotes.Grammar.PythonTokens

/-!
# The grammar of Python

Statements of the current version and of the second one are taken alike, so `print` and `exec` may
open statements.  A block is a list of statements between `indent` and `dedent`, statements on the
same line, or nothing but a line end.
-/

namespace CodeNotes.Grammar.Python

open Body

/-! ### Pieces -/

/-- A name. -/
def name : Body := cls "identifier"

/-- Words that are names where the grammar has no other use for them. -/
def softWords : List String := ["print", "exec", "async", "await", "type", "match"]

/-- A name or a word that can be one. -/
def anyName : Body := rule "anyName"

/-- One or more items with commas between them and perhaps one more at the end. -/
def commaList (b : Body) : Body := seq [commaSome b, opt (lit ",")]

/-- An expression. -/
def expression : Body := rule "expression"

/-- Expressions with commas between them. -/
def expressions : Body := rule "expressions"

/-- A colon and a block. -/
def suite : Body := seq [lit ":", rule "suite"]

/-! ### Statements -/

/-- Statements on one line. -/
def simpleRules : List Rule :=
  [⟨"module", many (rule "statement")⟩,
    ⟨"statement", either (rule "simpleLine") (rule "compound")⟩,
    ⟨"simpleLine", seq [sepBy (lit ";") (rule "simple"), opt (lit ";"), cls "newline"]⟩,
    ⟨"simple", oneOf
      [seq [lit "import", rule "importList"],
        seq [lit "from", lit "__future__", lit "import", rule "imported"],
        seq [lit "from", rule "moduleName", lit "import", either (lit "*") (rule "imported")],
        seq [lit "print", lit ">>", expression, many (seq [lit ",", expression]), opt (lit ",")],
        seq [lit "print", commaList expression],
        seq [lit "assert", commaSome expression],
        commaList expression, rule "assignment", rule "yield",
        seq [lit "return", opt expressions], seq [lit "del", expressions],
        seq [lit "raise", opt expressions, opt (seq [lit "from", expression])],
        anyLit ["pass", "break", "continue"],
        seq [anyLit ["global", "nonlocal"], commaSome name],
        seq [lit "exec", either (rule "string") name, opt (seq [lit "in", commaSome expression])],
        seq [lit "type", rule "type", lit "=", rule "type"]]⟩,
    ⟨"importList", commaList (seq [rule "dottedName", opt (seq [lit "as", name])])⟩,
    ⟨"imported", either (rule "importList") (inParens (rule "importList"))⟩,
    ⟨"moduleName", either (rule "dottedName")
      (seq [Body.some (lit "."), opt (rule "dottedName")])⟩,
    ⟨"dottedName", sepBy (lit ".") name⟩,
    ⟨"assignment", seq
      [rule "targets",
        oneOf
          [seq [lit "=", rule "assigned"],
            seq [lit ":", rule "type", opt (seq [lit "=", rule "assigned"])],
            seq [anyLit ["+=", "-=", "*=", "/=", "@=", "//=", "%=", "**=", ">>=", "<<=", "&=", "^=",
              "|="], rule "assigned"]]]⟩,
    ⟨"assigned", oneOf [expressions, rule "assignment", rule "targets", rule "yield"]⟩,
    ⟨"targets", commaList (rule "target")⟩,
    ⟨"target", oneOf
      [anyName, rule "place", seq [lit "*", either anyName (rule "place")],
        inParens (opt (rule "targets")), inBrackets (opt (rule "targets"))]⟩,
    ⟨"yield", seq
      [lit "yield", opt (either (seq [lit "from", expression]) expressions)]⟩]

/-- Statements with blocks. -/
def compoundRules : List Rule :=
  [⟨"compound", oneOf
      [seq [lit "if", expression, suite, many (seq [lit "elif", expression, suite]),
          opt (rule "else")],
        seq [opt (lit "async"), lit "for", rule "targets", lit "in", expressions, suite,
          opt (rule "else")],
        seq [lit "while", expression, suite, opt (rule "else")],
        seq [lit "try", suite,
          either
            (seq [either (Body.some (rule "except")) (Body.some (rule "exceptGroup")),
              opt (rule "else"), opt (rule "finally")])
            (rule "finally")],
        seq [opt (lit "async"), lit "with",
          either (commaList expression) (inParens (commaList expression)), suite],
        rule "definition",
        seq [Body.some (seq [lit "@", expression, cls "newline"]), rule "definition"],
        seq [lit "match", commaList expression, lit ":",
          either (seq [cls "indent", many (rule "case"), cls "dedent"]) (cls "newline")]]⟩,
    ⟨"suite", oneOf
      [rule "simpleLine", seq [cls "indent", many (rule "statement"), cls "dedent"],
        cls "newline"]⟩,
    ⟨"else", seq [lit "else", suite]⟩,
    ⟨"finally", seq [lit "finally", suite]⟩,
    ⟨"except", seq
      [lit "except", opt (seq [expression, opt (seq [anyLit ["as", ","], expression])]), suite]⟩,
    ⟨"exceptGroup", seq
      [lit "except*", expression, opt (seq [lit "as", expression]), suite]⟩,
    ⟨"definition", either
      (seq [opt (lit "async"), lit "def", name, opt (rule "typeParameters"), rule "parameters",
        opt (seq [lit "->", rule "type"]), suite])
      (seq [lit "class", name, opt (rule "typeParameters"), opt (rule "arguments"), suite])⟩,
    ⟨"parameters", inParens (opt (commaList (either (rule "parameter") (rule "typedParameter"))))⟩,
    ⟨"parameter", oneOf
      [name, seq [either name (inParens (opt (rule "targets"))), lit "=", expression],
        seq [anyLit ["*", "**"], either anyName (rule "place")],
        inParens (opt (rule "targets")), anyLit ["*", "/"]]⟩,
    ⟨"typedParameter", seq
      [either name (seq [anyLit ["*", "**"], either anyName (rule "place")]), lit ":",
        rule "type", opt (seq [lit "=", expression])]⟩,
    ⟨"typeParameters", inBrackets (commaList (rule "type"))⟩,
    ⟨"type", seq
      [oneOf [expression, seq [anyLit ["*", "**"], name],
          seq [either name (lit "type"), rule "typeParameters"]],
        many (either (seq [anyLit ["|", ":"], rule "type"]) (seq [lit ".", name]))]⟩]

/-- The cases of a choice by patterns. -/
def caseRules : List Rule :=
  [⟨"case", seq
      [lit "case", commaList (rule "casePattern"), opt (seq [lit "if", expression]), suite]⟩,
    ⟨"casePattern", seq
      [either (seq [name, lit "=", rule "simplePattern"]) (rule "simplePattern"),
        many (seq [lit "as", name])]⟩,
    ⟨"simplePattern", sepBy (lit "|") (oneOf
      [seq [rule "dottedName", opt (inParens (opt (commaList (rule "casePattern"))))],
        seq [anyLit ["*", "**"], either name (lit "_")],
        inBrackets (opt (commaList (rule "casePattern"))),
        inParens (opt (commaList (rule "casePattern"))),
        inBraces (opt (commaList (either
          (seq [rule "simplePattern", lit ":", rule "casePattern"])
          (seq [anyLit ["*", "**"], either name (lit "_")])))),
        Body.some (rule "string"), anyLit ["True", "False", "None", "_"],
        seq [opt (lit "-"), rule "number", opt (seq [anyLit ["+", "-"], rule "number"])]])⟩]

/-! ### Expressions -/

/-- Expressions. -/
def expressionRules : List Rule :=
  [⟨"anyName", either name (anyLit softWords)⟩,
    ⟨"expressions", commaList expression⟩,
    ⟨"expression", sepBy
      (either (anyLit ["and", "or", "as"]) (seq [lit "if", expression, lit "else"]))
      (rule "operand")⟩,
    ⟨"operand", seq
      [many (oneOf
        [lit "not", seq [anyName, lit ":="],
          seq [lit "lambda", opt (commaList (rule "parameter")), lit ":"]]),
        sepBy (rule "comparison") (rule "primary")]⟩,
    ⟨"comparison", oneOf
      [anyLit ["<", "<=", "==", "!=", ">=", ">", "<>", "in", "is"], seq [lit "not", lit "in"],
        seq [lit "is", lit "not"]]⟩,
    ⟨"primary", sepBy
      (anyLit ["+", "-", "*", "@", "/", "%", "//", "**", "|", "&", "^", "<<", ">>"])
      (seq [many (anyLit ["+", "-", "~", "await"]), either (rule "chain") (rule "splatName")])⟩,
    ⟨"splatName", seq [lit "*", either anyName (rule "place")]⟩,
    ⟨"chain", seq [rule "atom", many (rule "tail")]⟩,
    ⟨"place", seq [rule "atom", many (rule "tail"), either (rule "member") (rule "index")]⟩,
    ⟨"tail", oneOf [rule "member", rule "index", rule "arguments", rule "generator"]⟩,
    ⟨"member", seq [lit ".", name]⟩,
    ⟨"index", inBrackets (commaList (either expression (rule "slice")))⟩,
    ⟨"slice", seq
      [opt expression, lit ":", opt expression, opt (seq [lit ":", opt expression])]⟩,
    ⟨"arguments", inParens (seq
      [commaMany (oneOf
        [expression, rule "splat", seq [lit "**", expression], rule "splatInParens",
          seq [anyName, lit "=", expression]]),
        opt (lit ",")])⟩,
    ⟨"splat", seq [lit "*", expression]⟩,
    ⟨"splatInParens", inParens (either (rule "splatInParens") (rule "splat"))⟩,
    ⟨"generator", inParens (seq [expression, rule "clauses"])⟩,
    ⟨"clauses", seq
      [rule "forClause", many (either (rule "forClause") (seq [lit "if", expression]))]⟩,
    ⟨"forClause", seq
      [opt (lit "async"), lit "for", rule "targets", lit "in", commaList expression]⟩,
    ⟨"number", either (cls "integer") (cls "float")⟩,
    ⟨"atom", oneOf
      [anyName, Body.some (rule "string"), rule "number", anyLit ["True", "False", "None", "..."],
        inBrackets (opt (rule "elements")), inBrackets (seq [expression, rule "clauses"]),
        inParens (opt (rule "elements")), rule "generator",
        inBraces (rule "elements"), inBraces (seq [expression, rule "clauses"]),
        inBraces (seq [commaMany (either (rule "pair") (seq [lit "**", expression])),
          opt (lit ",")]),
        inBraces (seq [rule "pair", rule "clauses"])]⟩,
    ⟨"elements", commaList (oneOf
      [expression, rule "yield", rule "splat", rule "splatInParens"])⟩,
    ⟨"pair", seq [expression, lit ":", expression]⟩,
    ⟨"string", seq
      [cls "stringStart",
        many (oneOf
          [rule "interpolation", cls "doubledBrace", cls "escape", cls "backslash",
            cls "content"]),
        cls "stringEnd"]⟩,
    ⟨"interpolation", inBraces (seq
      [oneOf [expressions, rule "targets", rule "yield"], opt (lit "="), opt (cls "conversion"),
        opt (seq [lit ":", many (either (cls "formatRun") (rule "interpolation"))])])⟩]

/-- All rules. -/
def rules : List Rule :=
  simpleRules ++ compoundRules ++ caseRules ++ expressionRules

/-- The automata of Python. -/
def automaton : Automaton :=
  Automaton.ofRules rules

end CodeNotes.Grammar.Python
