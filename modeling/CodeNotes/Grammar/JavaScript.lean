import CodeNotes.Grammar.Repair
import CodeNotes.Grammar.ScriptTokens

/-!
# The grammar of JavaScript

Expressions are described flat: an expression is a chain of operands with binary operators between
them, since how tightly operators bind does not change which texts are expressions.
-/

namespace CodeNotes.Grammar.JavaScript

open Body

/-! ### Pieces -/

/-- Words that are names where the grammar has no other use for them. -/
def softWords : List String := ["get", "set", "async", "static", "export", "let"]

/-- A name. -/
def name : Body := rule "name"

/-- The operators between two operands. -/
def binaryOperators : List String :=
  ["&&", "||", ">>", ">>>", "<<", "&", "^", "|", "+", "-", "*", "/", "%", "**", "<", "<=", "==",
    "===", "!=", "!==", ">=", ">", "??", "instanceof", "in"]

/-- The operators before an operand. -/
def prefixOperators : List String :=
  ["!", "~", "-", "+", "typeof", "void", "delete", "await", "++", "--"]

/-- The operators that change a variable in place. -/
def updateOperators : List String :=
  ["+=", "-=", "*=", "/=", "%=", "^=", "&=", "|=", ">>=", ">>>=", "<<=", "**=", "&&=", "||=", "??="]

/-! ### Rules -/

/-- Programs, modules and statements. -/
def statementRules : List Rule :=
  [⟨"program", seq [opt (cls "hashBang"), many (rule "statement")]⟩,
    ⟨"name", either (cls "identifier") (anyLit softWords)⟩,
    ⟨"semicolon", either (cls "lineEnd") (lit ";")⟩,
    ⟨"statement", oneOf
      [rule "exportStatement", rule "importStatement",
        seq [lit "debugger", rule "semicolon"],
        seq [rule "expressions", rule "semicolon"],
        rule "declaration", rule "block",
        seq [lit "if", rule "parenthesized", rule "statement",
          opt (seq [lit "else", rule "statement"])],
        seq [lit "switch", rule "parenthesized", rule "switchBody"],
        seq [lit "for", lit "(", rule "forStart", rule "forCondition", opt (rule "expressions"),
          lit ")", rule "statement"],
        seq [lit "for", opt (lit "await"), rule "forHeader", rule "statement"],
        seq [lit "while", rule "parenthesized", rule "statement"],
        seq [lit "do", rule "statement", lit "while", rule "parenthesized",
          opt (rule "semicolon")],
        seq [lit "try", rule "block", opt (rule "catchClause"),
          opt (seq [lit "finally", rule "block"])],
        seq [lit "with", rule "parenthesized", rule "statement"],
        seq [anyLit ["break", "continue"], opt name, rule "semicolon"],
        seq [lit "return", opt (rule "expressions"), rule "semicolon"],
        seq [lit "throw", rule "expressions", rule "semicolon"],
        lit ";",
        seq [name, lit ":", rule "statement"]]⟩,
    ⟨"declaration", oneOf
      [rule "functionDeclaration", rule "classDeclaration", rule "lexicalDeclaration",
        rule "variableDeclaration"]⟩,
    ⟨"exportStatement", either
      (seq [lit "export",
        oneOf
          [seq [lit "*", rule "fromClause"],
            seq [lit "*", lit "as", rule "exportName", rule "fromClause"],
            seq [rule "exportClause", rule "fromClause"], rule "exportClause"],
        rule "semicolon"])
      (seq [many (rule "decorator"), lit "export",
        oneOf
          [rule "declaration",
            seq [lit "default",
              either (rule "declaration") (seq [rule "expression", rule "semicolon"])]]])⟩,
    ⟨"exportName", either name (rule "string")⟩,
    ⟨"exportClause", inBraces (seq [commaMany (rule "exportSpecifier"), opt (lit ",")])⟩,
    ⟨"exportSpecifier", seq [rule "exportName", opt (seq [lit "as", rule "exportName"])]⟩,
    ⟨"fromClause", seq [lit "from", rule "string"]⟩,
    ⟨"importStatement", seq
      [lit "import", either (seq [rule "importClause", rule "fromClause"]) (rule "string"),
        opt (rule "importAttribute"), rule "semicolon"]⟩,
    ⟨"importAttribute", seq [lit "with", rule "object"]⟩,
    ⟨"importClause", oneOf
      [rule "namespaceImport", rule "namedImports",
        seq [name, opt (seq [lit ",", either (rule "namespaceImport") (rule "namedImports")])]]⟩,
    ⟨"namespaceImport", seq [lit "*", lit "as", name]⟩,
    ⟨"namedImports", inBraces (seq [commaMany (rule "importSpecifier"), opt (lit ",")])⟩,
    ⟨"importSpecifier", either name (seq [rule "exportName", lit "as", name])⟩,
    ⟨"variableDeclaration",
      seq [lit "var", commaSome (rule "declarator"), rule "semicolon"]⟩,
    ⟨"lexicalDeclaration",
      seq [anyLit ["let", "const"], commaSome (rule "declarator"), rule "semicolon"]⟩,
    ⟨"declarator", seq [rule "target", opt (rule "initializer")]⟩,
    ⟨"target", either name (rule "pattern")⟩,
    ⟨"initializer", seq [lit "=", rule "expression"]⟩,
    ⟨"block", seq [inBraces (many (rule "statement")), opt (cls "lineEnd")]⟩,
    ⟨"forStart", oneOf
      [rule "lexicalDeclaration", rule "variableDeclaration", seq [rule "expressions", lit ";"],
        lit ";"]⟩,
    ⟨"forCondition", either (seq [rule "expressions", lit ";"]) (lit ";")⟩,
    ⟨"forHeader", seq
      [lit "(",
        oneOf
          [rule "place", rule "parenthesized",
            seq [lit "var", rule "target", opt (rule "initializer")],
            seq [anyLit ["let", "const"], rule "target", opt (cls "lineEnd")]],
        anyLit ["in", "of"], rule "expressions", lit ")"]⟩,
    ⟨"switchBody", inBraces (many (either
      (seq [lit "case", rule "expressions", lit ":", many (rule "statement")])
      (seq [lit "default", lit ":", many (rule "statement")])))⟩,
    ⟨"catchClause", seq [lit "catch", opt (inParens (rule "target")), rule "block"]⟩,
    ⟨"parenthesized", inParens (rule "expressions")⟩]

/-- Functions and classes. -/
def definitionRules : List Rule :=
  [⟨"signature", rule "parameters"⟩,
    ⟨"functionDeclaration", seq
      [opt (lit "async"), lit "function", opt (lit "*"), name, rule "signature", rule "body",
        opt (cls "lineEnd")]⟩,
    ⟨"functionExpression", seq
      [opt (lit "async"), lit "function", opt (lit "*"), opt name, rule "signature",
        rule "body"]⟩,
    ⟨"body", inBraces (many (rule "statement"))⟩,
    ⟨"parameters", inParens (opt (seq [commaSome (rule "parameter"), opt (lit ",")]))⟩,
    ⟨"parameter", rule "slotOrDefault"⟩,
    ⟨"slotOrDefault", either (rule "slot") (seq [rule "slot", lit "=", rule "expression"])⟩,
    ⟨"slot", either (rule "place") (seq [lit "...", rule "place"])⟩,
    ⟨"decorator", seq
      [lit "@", name, many (seq [lit ".", cls "identifier"]), opt (rule "arguments")]⟩,
    ⟨"classExpression", seq
      [many (rule "decorator"), lit "class", opt name, opt (rule "heritage"), rule "classBody"]⟩,
    ⟨"classDeclaration", seq
      [many (rule "decorator"), lit "class", name, opt (rule "heritage"), rule "classBody",
        opt (cls "lineEnd")]⟩,
    ⟨"heritage", seq [lit "extends", rule "expression"]⟩,
    ⟨"classBody", inBraces (many (oneOf
      [seq [rule "method", opt (lit ";")],
        seq [rule "field", rule "semicolon"],
        seq [lit "static", opt (cls "lineEnd"), rule "block"], lit ";"]))⟩,
    ⟨"field", seq
      [many (rule "decorator"), opt (lit "static"), rule "memberName", opt (rule "initializer")]⟩,
    ⟨"method", seq
      [many (rule "decorator"), opt (either (lit "static") (cls "staticGetter")),
        opt (lit "async"), opt (anyLit ["get", "set", "*"]), rule "memberName",
        rule "parameters", rule "body"]⟩,
    ⟨"memberName", oneOf
      [name, cls "privateName", rule "string", cls "number", inBrackets (rule "expression")]⟩]

/-- Expressions. -/
def expressionRules : List Rule :=
  [⟨"expressions", commaSome (rule "expression")⟩,
    ⟨"expression", seq
      [rule "chain",
        opt (seq [cls "conditionalMark", rule "expression", lit ":", rule "expression"])]⟩,
    ⟨"chain", sepBy (anyLit binaryOperators) (rule "operand")⟩,
    ⟨"operand", seq [many (rule "prefixOperator"), rule "core"]⟩,
    ⟨"prefixOperator", anyLit prefixOperators⟩,
    ⟨"core", oneOf
      [seq [rule "atom", many (rule "tail")],
        seq [opt (lit "using"), rule "place", lit "=", rule "expression"],
        seq [rule "parenthesized", lit "=", rule "expression"],
        seq [rule "simplePlace", anyLit updateOperators, rule "expression"],
        seq [lit "yield", either (seq [lit "*", rule "expression"]) (opt (rule "expression"))],
        seq [cls "privateName", lit "in", rule "operand"]]⟩,
    ⟨"atom", oneOf
      [rule "primary", rule "imported", rule "element",
        seq [Body.some (lit "new"), rule "primary"]]⟩,
    ⟨"tail", oneOf
      [rule "memberTail", rule "arguments", rule "template", seq [lit "?.", rule "arguments"],
        anyLit ["++", "--"]]⟩,
    ⟨"memberTail", oneOf
      [seq [anyLit [".", "?."], either (cls "identifier") (cls "privateName")],
        seq [opt (lit "?."), inBrackets (rule "expressions")]]⟩,
    ⟨"simplePlace", oneOf
      [name, rule "parenthesized", seq [rule "atom", many (rule "tail"), rule "memberTail"]]⟩,
    ⟨"place", oneOf
      [name, rule "pattern", seq [rule "atom", many (rule "tail"), rule "memberTail"]]⟩,
    ⟨"primary", oneOf
      [rule "parenthesized", name, anyLit ["this", "super", "true", "false", "null"],
        cls "number", rule "string", rule "template", rule "regex", rule "object", rule "array",
        rule "functionExpression", rule "arrow", rule "classExpression",
        seq [lit "new", lit ".", lit "target"]]⟩,
    ⟨"imported", seq
      [lit "import",
        oneOf [rule "arguments", rule "template", seq [anyLit [".", "?."], cls "identifier"]]]⟩,
    ⟨"arrow", seq
      [opt (lit "async"), either name (rule "signature"), lit "=>",
        either (rule "expression") (rule "body")]⟩,
    ⟨"arguments", inParens (commaHoles (either (rule "expression") (rule "spread")))⟩,
    ⟨"spread", seq [lit "...", rule "expression"]⟩,
    ⟨"object", inBraces (commaHoles (oneOf
      [seq [rule "memberName", lit ":", rule "expression"], rule "spread", rule "method", name]))⟩,
    ⟨"array", inBrackets (commaHoles (either (rule "expression") (rule "spread")))⟩,
    ⟨"pattern", either (rule "objectPattern") (rule "arrayPattern")⟩,
    ⟨"objectPattern", inBraces (commaHoles (oneOf
      [seq [rule "memberName", lit ":", rule "slotOrDefault"], seq [lit "...", rule "place"],
        seq [rule "target", lit "=", rule "expression"], name]))⟩,
    ⟨"arrayPattern", inBrackets (commaHoles (rule "slotOrDefault"))⟩]

/-- Literals. -/
def literalRules : List Rule :=
  [⟨"string", either
      (seq [lit "\"", many (either (cls "doubleRun") (cls "escape")), lit "\""])
      (seq [lit "'", many (either (cls "singleRun") (cls "escape")), lit "'"])⟩,
    ⟨"template", seq
      [lit "\x60",
        many (oneOf
          [cls "templateRun", cls "escape",
            seq [lit "$\x7b", rule "expressions", lit "\x7d"]]),
        lit "\x60"]⟩,
    ⟨"regex", seq [lit "/", cls "regexPattern", cls "regexEnd", opt (cls "regexFlags")]⟩]

/-- Elements written as markup. -/
def elementRules : List Rule :=
  [⟨"element", either
      (seq [rule "openingTag", many (rule "elementChild"), rule "closingTag"])
      (seq [lit "<", rule "elementName", many (rule "attribute"), lit "/>"])⟩,
    ⟨"openingTag", seq
      [lit "<", opt (seq [rule "elementName", many (rule "attribute")]), lit ">"]⟩,
    ⟨"closingTag", seq [lit "</", opt (rule "elementName"), lit ">"]⟩,
    ⟨"elementChild", oneOf
      [cls "elementText", cls "characterReference", rule "element", rule "hole"]⟩,
    ⟨"hole", inBraces (opt (oneOf [rule "expressions", rule "spread"]))⟩,
    ⟨"tagName", either (cls "hyphenName") (cls "identifier")⟩,
    ⟨"elementName", oneOf
      [rule "tagName", seq [cls "identifier", Body.some (seq [lit ".", cls "identifier"])],
        seq [rule "tagName", lit ":", rule "tagName"]]⟩,
    ⟨"attribute", either
      (seq
        [either (rule "tagName") (seq [rule "tagName", lit ":", rule "tagName"]),
          opt (seq [lit "=", oneOf [rule "attributeString", rule "hole", rule "element"]])])
      (rule "hole")⟩,
    ⟨"attributeString", either
      (seq
        [lit "\"", many (either (cls "doubleAttributeRun") (cls "characterReference")), lit "\""])
      (seq
        [lit "'", many (either (cls "singleAttributeRun") (cls "characterReference")), lit "'"])⟩]

/-- All rules; the first is a whole program. -/
def rules : List Rule :=
  statementRules ++ definitionRules ++ expressionRules ++ literalRules ++ elementRules

/-- When a line end stands for a semicolon. -/
def semicolonRules : Script.SemicolonRules where
  throughComments := true
  braceColon := false
  continuing := "\x60,:;*%><=[(?^|&/".toList
  continuingExpression := []
  dotDigit := true

/-- The lexicon. -/
def lexicon : Lexicon Unit :=
  Script.lexicon semicolonRules false

/-- The automata of the rules. -/
def automaton : Automaton :=
  Automaton.ofRules rules

end CodeNotes.Grammar.JavaScript
