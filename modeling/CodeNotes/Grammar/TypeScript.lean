import CodeNotes.Grammar.JavaScript

/-!
# The grammar of TypeScript

The grammar of JavaScript with types added to it.  There are two dialects: in plain TypeScript a
type in angle brackets may stand before an operand and there are no elements written as markup; in
the other dialect it is the other way round.
-/

namespace CodeNotes.Grammar.TypeScript

open Body JavaScript

/-- Words that are names where the grammar has no other use for them. -/
def softWords : List String :=
  JavaScript.softWords ++
    ["declare", "namespace", "type", "public", "private", "protected", "override", "readonly",
      "module", "any", "number", "boolean", "string", "symbol", "object"]

/-! ### Types -/

/-- An optional type after a colon. -/
def annotation : Body := opt (rule "annotation")

/-- Optional type parameters. -/
def typeParameters : Body := opt (rule "typeParameters")

/-- Optional type arguments. -/
def typeArguments : Body := opt (rule "typeArguments")

/-- Types.  As with operators, unions and intersections are described flat. -/
def typeRules : List Rule :=
  [⟨"annotation", seq [lit ":", rule "type"]⟩,
    ⟨"resultAnnotation", seq
      [lit ":", oneOf [rule "type", rule "assertion", rule "predicate"]]⟩,
    ⟨"assertion", seq
      [lit "asserts", oneOf [rule "predicate", name, lit "this"]]⟩,
    ⟨"predicate", seq [either name (lit "this"), lit "is", rule "type"]⟩,
    ⟨"type", seq
      [rule "typeChain",
        opt (seq [lit "extends", rule "type", lit "?", rule "type", lit ":", rule "type"])]⟩,
    ⟨"typeChain", seq
      [many (anyLit ["|", "&"]), rule "typeOperand",
        many (seq [Body.some (anyLit ["|", "&"]), rule "typeOperand"])]⟩,
    ⟨"typeOperand", oneOf
      [seq [typeParameters, rule "parameters", lit "=>",
          oneOf [rule "type", rule "assertion", rule "predicate"]],
        seq [opt (lit "abstract"), lit "new", typeParameters, rule "parameters", lit "=>",
          rule "type"],
        seq [lit "readonly", rule "type"],
        seq [lit "infer", name, opt (seq [lit "extends", rule "type"])],
        seq [anyLit ["keyof", "?"], rule "typeOperand"],
        seq [rule "typeAtom", many (inBrackets (opt (rule "type")))]]⟩,
    ⟨"typeAtom", oneOf
      [inParens (rule "type"),
        seq [name, many (seq [lit ".", name]), typeArguments],
        seq [lit "unique", lit "symbol"],
        rule "objectType",
        inBrackets (seq [commaMany (rule "tupleMember"), opt (lit ",")]),
        seq [lit "typeof", rule "queried"],
        seq [lit "import", rule "arguments", many (seq [lit ".", name]), typeArguments],
        anyLit ["this", "*", "const", "true", "false", "null"],
        seq [opt (anyLit ["-", "+"]), cls "number"], rule "string", rule "templateType"]⟩,
    ⟨"queried", seq
      [oneOf [name, lit "this", seq [lit "import", rule "arguments"]],
        many (oneOf
          [seq [anyLit [".", "?."], either name (cls "privateName")],
            inBrackets (oneOf [name, rule "string", cls "number"]), rule "arguments"]),
        typeArguments]⟩,
    ⟨"templateType", seq
      [lit "\x60",
        many (either (cls "templateRun") (seq [lit "$\x7b", rule "type", lit "\x7d"])),
        lit "\x60"]⟩,
    ⟨"tupleMember", oneOf
      [seq [opt (lit "..."), name, opt (lit "?"), rule "annotation"],
        seq [rule "type", opt (lit "?")], seq [lit "...", rule "type"]]⟩,
    ⟨"typeArguments", seq [lit "<", commaSome (rule "type"), opt (lit ","), lit ">"]⟩,
    ⟨"typeParameters", seq [lit "<", commaSome (rule "typeParameter"), opt (lit ","), lit ">"]⟩,
    ⟨"typeParameter", seq
      [opt (lit "const"), name, opt (seq [anyLit ["extends", ":"], rule "type"]),
        opt (seq [lit "=", rule "type"])]⟩,
    ⟨"objectType", seq
      [anyLit ["\x7b", "\x7b|"],
        opt (seq
          [opt (anyLit [",", ";"]),
            sepBy (either (lit ",") (rule "semicolon")) (rule "typeMember"),
            opt (either (lit ",") (rule "semicolon"))]),
        anyLit ["\x7d", "|\x7d"]]⟩,
    ⟨"typeMember", oneOf
      [rule "exportStatement",
        seq [opt (rule "access"), opt (lit "static"), opt (lit "override"), opt (lit "readonly"),
          rule "memberName", opt (lit "?"), annotation],
        rule "signature",
        seq [opt (lit "abstract"), lit "new", typeParameters, rule "parameters", annotation],
        rule "indexSignature", rule "methodHead"]⟩,
    ⟨"indexSignature", seq
      [opt (seq [opt (anyLit ["-", "+"]), lit "readonly"]), lit "[",
        either (seq [name, lit ":", rule "type"])
          (seq [name, lit "in", rule "type", opt (seq [lit "as", rule "type"])]),
        lit "]", seq [anyLit [":", "?:", "+?:", "-?:"], rule "type"]]⟩,
    ⟨"access", anyLit ["public", "private", "protected"]⟩]

/-! ### Declarations -/

/-- Statements and declarations. -/
def declarationRules : List Rule :=
  [⟨"name", either (cls "identifier") (anyLit softWords)⟩,
    ⟨"declaration", oneOf
      [rule "functionDeclaration", rule "classDeclaration", rule "lexicalDeclaration",
        rule "variableDeclaration",
        seq [opt (lit "async"), lit "function", opt (lit "*"), name, rule "signature",
          either (rule "semicolon") (cls "signatureEnd")],
        seq [many (rule "decorator"), lit "abstract", lit "class", name, typeParameters,
          opt (rule "heritage"), rule "classBody"],
        seq [anyLit ["module", "namespace"], either (rule "string") (rule "nestedName"),
          opt (rule "block")],
        seq [lit "type", name, typeParameters, lit "=", rule "type", rule "semicolon"],
        seq [opt (lit "const"), lit "enum", name, rule "enumBody"],
        seq [lit "interface", name, typeParameters,
          opt (seq
            [lit "extends", commaSome (seq [rule "nestedName", typeArguments])]),
          rule "objectType"],
        rule "importAlias",
        seq [lit "declare",
          oneOf
            [rule "declaration", seq [lit "global", rule "block"],
              seq [lit "module", lit ".", name, lit ":", rule "type", rule "semicolon"]]]]⟩,
    ⟨"nestedName", sepBy (lit ".") name⟩,
    ⟨"importAlias", seq [lit "import", name, lit "=", rule "nestedName", rule "semicolon"]⟩,
    ⟨"enumBody", inBraces (opt (seq
      [commaSome (seq [rule "memberName", opt (rule "initializer")]), opt (lit ",")]))⟩,
    ⟨"exportSpecifier", seq
      [opt (anyLit ["type", "typeof"]), rule "exportName",
        opt (seq [lit "as", rule "exportName"])]⟩,
    ⟨"exportStatement", oneOf
      [seq [lit "export",
        oneOf
          [seq [lit "*", rule "fromClause"],
            seq [lit "*", lit "as", rule "exportName", rule "fromClause"],
            seq [rule "exportClause", rule "fromClause"], rule "exportClause"],
        rule "semicolon"],
      seq [many (rule "decorator"), lit "export",
        oneOf
          [rule "declaration",
            seq [lit "default",
              either (rule "declaration") (seq [rule "expression", rule "semicolon"])]]],
      seq [lit "export", lit "type", rule "exportClause", opt (rule "fromClause"),
        rule "semicolon"],
      seq [lit "export", rule "importAlias"],
      seq [lit "export", lit "=", rule "expression", rule "semicolon"],
      seq [lit "export", lit "as", lit "namespace", name, rule "semicolon"]]⟩,
    ⟨"importStatement", seq
      [lit "import", opt (anyLit ["type", "typeof"]),
        oneOf
          [seq [rule "importClause", rule "fromClause"],
            seq [name, lit "=", lit "require", inParens (rule "string")], rule "string"],
        opt (rule "importAttribute"), rule "semicolon"]⟩,
    ⟨"importSpecifier", seq
      [opt (anyLit ["type", "typeof"]), either name (seq [rule "exportName", lit "as", name])]⟩,
    ⟨"declarator", either
      (seq [rule "target", annotation, opt (rule "initializer")])
      (seq [name, lit "!", rule "annotation"])⟩,
    ⟨"catchClause", seq
      [lit "catch", opt (inParens (seq [rule "target", annotation])), rule "block"]⟩,
    ⟨"parenthesized", inParens (either (seq [rule "expression", annotation]) (rule "expressions"))⟩]

/-- Functions and classes. -/
def definitionRules : List Rule :=
  [⟨"signature", seq [typeParameters, rule "parameters", opt (rule "resultAnnotation")]⟩,
    ⟨"parameter", seq
      [many (rule "decorator"), opt (rule "access"), opt (lit "override"), opt (lit "readonly"),
        either (rule "slot") (lit "this"), opt (lit "?"), annotation, opt (rule "initializer")]⟩,
    ⟨"decorator", seq [lit "@", either (rule "decoration") (inParens (rule "decoration"))]⟩,
    ⟨"decoration", seq
      [name, many (seq [lit ".", cls "identifier"]),
        opt (seq [typeArguments, rule "arguments"])]⟩,
    ⟨"classExpression", seq
      [many (rule "decorator"), lit "class", opt name, typeParameters, opt (rule "heritage"),
        rule "classBody"]⟩,
    ⟨"classDeclaration", seq
      [many (rule "decorator"), lit "class", name, typeParameters, opt (rule "heritage"),
        rule "classBody", opt (cls "lineEnd")]⟩,
    ⟨"heritage", either
      (seq [lit "extends", commaSome (seq [rule "expression", typeArguments]),
        opt (rule "implemented")])
      (rule "implemented")⟩,
    ⟨"implemented", seq [lit "implements", commaSome (rule "type")]⟩,
    ⟨"classBody", inBraces (many (oneOf
      [rule "decorator",
        seq [rule "method", opt (rule "semicolon")],
        seq [rule "methodHead", either (cls "signatureEnd") (lit ",")],
        seq [lit "static", opt (cls "lineEnd"), rule "block"],
        seq
          [oneOf [rule "abstractMethod", rule "indexSignature", rule "methodHead", rule "field"],
            either (rule "semicolon") (lit ",")],
        lit ";"]))⟩,
    ⟨"field", seq
      [many (rule "decorator"),
        opt (either (seq [lit "declare", opt (rule "access")])
          (seq [rule "access", opt (lit "declare")])),
        oneOf
          [seq [opt (lit "static"), opt (lit "override"), opt (lit "readonly")],
            seq [lit "abstract", opt (lit "readonly")], seq [lit "readonly", lit "abstract"],
            lit "accessor"],
        rule "memberName", opt (anyLit ["?", "!"]), annotation, opt (rule "initializer")]⟩,
    ⟨"methodHead", seq
      [opt (rule "access"), opt (lit "static"), opt (lit "override"), opt (lit "readonly"),
        opt (lit "async"), opt (anyLit ["get", "set", "*"]), rule "memberName", opt (lit "?"),
        rule "signature"]⟩,
    ⟨"method", seq [rule "methodHead", rule "body"]⟩,
    ⟨"abstractMethod", seq
      [opt (rule "access"), lit "abstract", opt (lit "override"),
        opt (anyLit ["get", "set", "*"]), rule "memberName", opt (lit "?"), rule "signature"]⟩]

/-- Expressions. -/
def expressionRules : List Rule :=
  [⟨"chain", seq
      [rule "operand",
        many (oneOf
          [seq [anyLit binaryOperators, rule "operand"],
            seq [lit "as", either (lit "const") (rule "type")],
            seq [lit "satisfies", rule "type"]])]⟩,
    ⟨"tail", oneOf
      [rule "memberTail", seq [typeArguments, rule "arguments"], rule "typeArguments",
        rule "template", seq [lit "?.", typeArguments, rule "arguments"],
        anyLit ["++", "--", "!"]]⟩,
    ⟨"simplePlace", oneOf
      [name, rule "parenthesized",
        seq [rule "atom", many (rule "tail"), either (rule "memberTail") (lit "!")]]⟩,
    ⟨"place", oneOf
      [name, rule "pattern",
        seq [rule "atom", many (rule "tail"), either (rule "memberTail") (lit "!")]]⟩]

/-- The rules of plain TypeScript: types in angle brackets before an operand, and no elements. -/
def plainRules : List Rule :=
  [⟨"prefixOperator", either (anyLit prefixOperators) (rule "typeArguments")⟩,
    ⟨"atom", oneOf
      [rule "primary", rule "imported", seq [Body.some (lit "new"), rule "primary"]]⟩]

/-- The rules of elements that differ: names can have type arguments. -/
def elementRules : List Rule :=
  [⟨"elementName", oneOf
      [rule "tagName", seq [sepBy (lit ".") (cls "identifier"), typeArguments],
        seq [rule "tagName", lit ":", rule "tagName"]]⟩,
    ⟨"closingTag", seq [lit "</", opt (rule "elementName"), lit ">"]⟩]

/-- All rules that the dialects share. -/
def sharedRules : List Rule :=
  Rule.extend JavaScript.rules (typeRules ++ declarationRules ++ definitionRules ++ expressionRules)

/-- When a line end stands for a semicolon. -/
def semicolonRules : Script.SemicolonRules where
  throughComments := false
  braceColon := true
  continuing := "\x60,.;*%><=?^|&/:".toList
  continuingExpression := ['(', '[']
  dotDigit := false

/-- The lexicon of plain TypeScript. -/
def lexicon : Lexicon Unit :=
  { Script.lexicon semicolonRules true with
    splittable := [">", ">>", ">>>", ">=", ">>=", ">>>="] }

/-- The lexicon of the dialect with elements. -/
def elementLexicon : Lexicon Unit :=
  { lexicon with
    freeText := some
      ("elementText", [.text "<", .text "</", .text "\x7b", .kind "characterReference"]) }

/-- The automata of plain TypeScript. -/
def automaton : Automaton :=
  Automaton.ofRules (Rule.extend sharedRules plainRules)

/-- The automata of the dialect with elements. -/
def elementAutomaton : Automaton :=
  Automaton.ofRules (Rule.extend sharedRules elementRules)

end CodeNotes.Grammar.TypeScript
