import CodeNotes.Grammar.Repair
import CodeNotes.Grammar.RustTokens

/-!
# The grammar of Rust

Expressions are described flat: operands with binary operators between them, where an operand is an
atom with what may stand before and after it.  A statement is an item, an expression with a
semicolon, or an expression that ends with a block.
-/

namespace CodeNotes.Grammar.Rust

open Body

/-! ### Pieces -/

/-- A name. -/
def name : Body := cls "identifier"

/-- Words that are names where the grammar has no other use for them. -/
def softWords : Body := anyLit ["default", "union", "gen", "raw"]

/-- The types that are words of the language. -/
def primitive : Body := anyLit (numberTypes ++ ["bool", "str", "char"])

/-- A name after a single quote: the name of a lifetime or of a loop. -/
def quoted : Body := rule "quoted"

/-- Any number of items with commas between them and perhaps one more at the end. -/
def commaList (b : Body) : Body := seq [commaMany b, opt (lit ",")]

/-- One or more items with commas between them and perhaps one more at the end. -/
def commaListSome (b : Body) : Body := seq [commaSome b, opt (lit ",")]

/-- Any number of attributes. -/
def attributes : Body := many (rule "attribute")

/-- An optional modifier of visibility. -/
def visibility : Body := opt (rule "visibility")

/-- Optional parameters over types. -/
def typeParameters : Body := opt (rule "typeParameters")

/-- An optional clause of conditions on types. -/
def whereClause : Body := opt (rule "whereClause")

/-- A literal. -/
def literal : Body := rule "literal"

/-! ### Items -/

/-- Files, statements and items. -/
def itemRules : List Rule :=
  [⟨"file", seq [opt (cls "interpreterLine"), many (rule "statement")]⟩,
    ⟨"statement", oneOf
      [seq [rule "expression", lit ";"], rule "blockExpression", rule "item"]⟩,
    ⟨"item", oneOf
      [rule "constItem", rule "macroCall", rule "macroDefinition", lit ";", rule "attribute",
        rule "innerAttribute", rule "module", rule "foreignModule", rule "structItem",
        rule "unionItem", rule "enumItem", rule "typeItem", rule "function", rule "implItem",
        rule "traitItem", rule "letItem", rule "useItem", rule "externCrate", rule "staticItem"]⟩,
    ⟨"itemList", inBraces (many (rule "item"))⟩,
    ⟨"attribute", seq [lit "#", inBrackets (rule "attributeBody")]⟩,
    ⟨"innerAttribute", seq [lit "#", lit "!", inBrackets (rule "attributeBody")]⟩,
    ⟨"attributeBody", seq
      [rule "path", opt (either (seq [lit "=", rule "expression"]) (rule "tokenTree"))]⟩,
    ⟨"visibility", either (lit "crate")
      (seq [lit "pub", opt (inParens (either (anyLit ["self", "super", "crate"])
        (seq [lit "in", rule "path"])))])⟩,
    ⟨"module", seq [visibility, lit "mod", name, either (lit ";") (rule "itemList")]⟩,
    ⟨"externModifier", seq [lit "extern", opt (cls "string")]⟩,
    ⟨"foreignModule",
      seq [visibility, rule "externModifier", either (lit ";") (rule "itemList")]⟩,
    ⟨"externCrate", seq
      [visibility, lit "extern", lit "crate", name, opt (seq [lit "as", name]), lit ";"]⟩,
    ⟨"structItem", seq
      [visibility, lit "struct", name, typeParameters,
        oneOf
          [seq [whereClause, rule "fieldList"], seq [rule "tupleFields", whereClause, lit ";"],
            lit ";"]]⟩,
    ⟨"unionItem",
      seq [visibility, lit "union", name, typeParameters, whereClause, rule "fieldList"]⟩,
    ⟨"enumItem", seq
      [visibility, lit "enum", name, typeParameters, whereClause,
        inBraces (commaList (seq [attributes, rule "variant"]))]⟩,
    ⟨"variant", seq
      [visibility, name, opt (either (rule "fieldList") (rule "tupleFields")),
        opt (seq [lit "=", rule "expression"])]⟩,
    ⟨"fieldList", inBraces (commaList
      (seq [attributes, visibility, name, lit ":", rule "type"]))⟩,
    ⟨"tupleFields", inParens (commaList (seq [attributes, visibility, rule "type"]))⟩,
    ⟨"constItem", seq
      [visibility, lit "const", name, lit ":", rule "type", opt (seq [lit "=", rule "expression"]),
        lit ";"]⟩,
    ⟨"staticItem", seq
      [visibility, lit "static", opt (lit "ref"), opt (lit "mut"), name, lit ":", rule "type",
        opt (seq [lit "=", rule "expression"]), lit ";"]⟩,
    ⟨"typeItem", seq
      [visibility, lit "type", name, typeParameters,
        either (seq [whereClause, lit "=", rule "type"]) (opt (rule "bounds")), whereClause,
        lit ";"]⟩,
    ⟨"function", seq
      [visibility, many (rule "functionModifier"), lit "fn", either name (cls "metavariable"),
        typeParameters, rule "parameters", opt (rule "result"), whereClause,
        either (rule "block") (lit ";")]⟩,
    ⟨"functionModifier", either (anyLit ["async", "default", "const", "unsafe"])
      (rule "externModifier")⟩,
    ⟨"result", seq [lit "->", rule "type"]⟩,
    ⟨"parameters", inParens (commaList (seq
      [opt (rule "attribute"),
        oneOf [rule "parameter", rule "selfParameter", rule "restParameter", lit "_",
          rule "type"]]))⟩,
    ⟨"selfParameter", seq [opt (lit "&"), opt quoted, opt (lit "mut"), lit "self"]⟩,
    ⟨"restParameter", seq
      [opt (lit "mut"), opt (seq [rule "pattern", lit ":"]), lit "..."]⟩,
    ⟨"parameter", seq
      [opt (lit "mut"), either (rule "pattern") (lit "self"), lit ":", rule "type"]⟩,
    ⟨"implItem", seq
      [opt (lit "unsafe"), lit "impl", typeParameters,
        opt (seq [opt (lit "!"), oneOf [name, rule "scopedType", rule "genericType"], lit "for"]),
        rule "type", whereClause, either (rule "itemList") (lit ";")]⟩,
    ⟨"traitItem", seq
      [visibility, opt (lit "unsafe"), lit "trait", name, typeParameters, opt (rule "bounds"),
        whereClause, rule "itemList"]⟩,
    ⟨"letItem", seq
      [lit "let", opt (lit "mut"), rule "pattern", opt (seq [lit ":", rule "type"]),
        opt (seq [lit "=", rule "expression"]), opt (seq [lit "else", rule "block"]), lit ";"]⟩,
    ⟨"useItem", seq [visibility, lit "use", rule "useClause", lit ";"]⟩,
    ⟨"useClause", oneOf
      [rule "path", seq [rule "path", lit "as", name], rule "useList",
        seq [opt (rule "path"), lit "::", rule "useList"],
        seq [opt (seq [opt (rule "path"), lit "::"]), lit "*"]]⟩,
    ⟨"useList", inBraces (commaList (rule "useClause"))⟩]

/-- Conditions on types. -/
def boundRules : List Rule :=
  [⟨"whereClause", seq [lit "where", opt (commaListSome (rule "wherePredicate"))]⟩,
    ⟨"wherePredicate", seq
      [oneOf
        [quoted, name, rule "scopedType", rule "genericType", rule "referenceType",
          rule "pointerType", rule "tupleType", rule "arrayType", rule "rankedBound", primitive],
        rule "bounds"]⟩,
    ⟨"bounds", seq
      [lit ":", sepBy (lit "+") (oneOf [rule "type", quoted, rule "rankedBound"])]⟩,
    ⟨"rankedBound", seq [lit "for", rule "typeParameters", rule "type"]⟩,
    ⟨"removedBound", seq [lit "?", rule "type"]⟩,
    ⟨"typeParameters", seq
      [lit "<",
        commaListSome (seq
          [attributes,
            oneOf
              [cls "metavariable",
                seq [name, opt (rule "bounds"), opt (seq [lit "=", rule "type"])],
                seq [quoted, opt (rule "bounds")],
                seq [lit "const", name, lit ":", rule "type",
                  opt (seq [lit "=", oneOf [rule "block", name, literal, rule "negative"]])]]]),
        lit ">"]⟩]

/-- Types and paths. -/
def typeRules : List Rule :=
  [⟨"quoted", seq [lit "'", name]⟩,
    ⟨"type", oneOf
      [rule "abstractType", rule "referenceType", cls "metavariable", rule "pointerType",
        rule "genericType", rule "scopedType", rule "tupleType", inParens done, rule "arrayType",
        rule "functionType", name, rule "macroCall", lit "!", rule "dynamicType",
        rule "boundedType", rule "removedBound", primitive]⟩,
    ⟨"abstractType", seq
      [lit "impl", opt (seq [lit "for", rule "typeParameters"]),
        oneOf
          [name, rule "scopedType", rule "removedBound", rule "genericType", rule "functionType",
            rule "tupleType", rule "boundedType"]]⟩,
    ⟨"dynamicType", seq
      [lit "dyn",
        oneOf
          [rule "rankedBound", name, rule "scopedType", rule "genericType", rule "functionType",
            rule "tupleType"]]⟩,
    ⟨"boundedType", seq
      [rule "boundedPart", lit "+", rule "boundedPart"]⟩,
    ⟨"boundedPart", oneOf
      [quoted, rule "type",
        seq [lit "use", cls "openArguments", commaList (either quoted name), lit ">"]]⟩,
    ⟨"referenceType", seq [lit "&", opt quoted, opt (lit "mut"), rule "type"]⟩,
    ⟨"pointerType", seq [lit "*", anyLit ["const", "mut"], rule "type"]⟩,
    ⟨"tupleType", inParens (commaListSome (rule "type"))⟩,
    ⟨"arrayType", inBrackets (seq [rule "type", opt (seq [lit ";", rule "expression"])])⟩,
    ⟨"functionType", seq
      [opt (seq [lit "for", lit "<", commaListSome quoted, lit ">"]),
        oneOf
          [name, rule "scopedType", seq [many (rule "functionModifier"), lit "fn"]],
        rule "parameters", opt (rule "result")]⟩,
    ⟨"genericType", seq
      [oneOf [name, softWords, rule "scopedType"], rule "typeArguments"]⟩,
    ⟨"typeArguments", seq
      [cls "openArguments",
        commaListSome (seq
          [oneOf [rule "type", rule "typeBinding", quoted, literal, rule "block"],
            opt (rule "bounds")]),
        lit ">"]⟩,
    ⟨"typeBinding", seq [name, opt (rule "typeArguments"), lit "=", rule "type"]⟩,
    ⟨"bracketedType", seq
      [lit "<", rule "type", opt (seq [lit "as", rule "type"]), lit ">"]⟩,
    ⟨"turbofish", seq
      [either name (rule "scopedName"), lit "::", rule "typeArguments"]⟩,
    ⟨"scopedName", seq
      [opt (oneOf [rule "path", rule "bracketedType", rule "turbofish"]), lit "::",
        either name (lit "super")]⟩,
    ⟨"scopedType", seq
      [opt (oneOf [rule "path", rule "turbofish", rule "bracketedType", rule "genericType"]),
        lit "::", name]⟩,
    ⟨"path", oneOf
      [anyLit ["self", "super", "crate"], primitive, cls "metavariable", name, rule "scopedName",
        softWords]⟩]

/-! ### Expressions -/

/-- The operators between two operands. -/
def binaryOperators : List String :=
  ["&&", "||", "&", "|", "^", "==", "!=", "<", "<=", ">", ">=", "<<", ">>", "+", "-", "*", "/", "%",
    "=", "+=", "-=", "*=", "/=", "%=", "&=", "|=", "^=", "<<=", ">>=", "..", "...", "..="]

/-- Expressions. -/
def expressionRules : List Rule :=
  [⟨"expression", sepBy (anyLit binaryOperators) (rule "operand")⟩,
    ⟨"operand", seq [many (rule "before"), rule "atom", many (rule "after")]⟩,
    ⟨"before", oneOf
      [anyLit ["-", "*", "!", "return", "yield", "..", "..="],
        seq [lit "&", opt (either (lit "mut") (seq [lit "raw", anyLit ["const", "mut"]]))],
        seq [lit "break", opt quoted], rule "closureHead"]⟩,
    ⟨"after", oneOf
      [lit "?", rule "arguments", inBrackets (rule "expression"), seq [lit "as", rule "type"],
        lit "..", seq [lit ".", lit "await"],
        seq [lit ".", either name (cls "integer"),
          opt (seq [lit "::", rule "typeArguments"])]]⟩,
    ⟨"atom", oneOf
      [literal, name, primitive, softWords, lit "self", rule "scopedName", rule "turbofish",
        rule "macroCall", cls "metavariable", rule "array", inParens done,
        inParens (rule "expression"), rule "tuple", rule "structValue", rule "blockExpression",
        anyLit ["return", "yield", ".."], seq [lit "break", opt quoted],
        seq [lit "continue", opt quoted], seq [rule "closureHead", lit "_"],
        seq [rule "closureHead", opt (rule "result"), rule "block"]]⟩,
    ⟨"blockExpression", oneOf
      [seq [lit "unsafe", rule "block"],
        seq [anyLit ["async", "gen"], opt (lit "move"), rule "block"],
        seq [lit "try", rule "block"], rule "block", rule "ifExpression", rule "matchExpression",
        seq [opt (rule "label"), lit "while", rule "condition", rule "block"],
        seq [opt (rule "label"), lit "loop", rule "block"],
        seq [opt (rule "label"), lit "for", rule "pattern", lit "in", rule "expression",
          rule "block"],
        rule "constBlock"]⟩,
    ⟨"label", seq [quoted, lit ":"]⟩,
    ⟨"constBlock", seq [lit "const", rule "block"]⟩,
    ⟨"block", seq
      [opt (rule "label"), inBraces (seq [many (rule "statement"), opt (rule "expression")])]⟩,
    ⟨"ifExpression", seq
      [lit "if", rule "condition", rule "block",
        opt (seq [lit "else", either (rule "block") (rule "ifExpression")])]⟩,
    ⟨"condition", sepBy (lit "&&") (either (rule "expression")
      (seq [lit "let", rule "pattern", lit "=", rule "expression"]))⟩,
    ⟨"matchExpression", seq
      [lit "match", rule "expression",
        inBraces (opt (seq
          [many (seq
            [rule "armHead",
              either (seq [rule "expression", lit ","]) (rule "blockExpression")]),
            rule "armHead", rule "expression", opt (lit ",")]))]⟩,
    ⟨"armHead", seq
      [many (either (rule "attribute") (rule "innerAttribute")), rule "pattern",
        opt (seq [lit "if", rule "condition"]), lit "=>"]⟩,
    ⟨"closureHead", seq
      [opt (lit "static"), opt (lit "async"), opt (lit "move"), lit "|",
        commaMany (either (rule "pattern") (rule "parameter")), lit "|"]⟩,
    ⟨"arguments", inParens (commaList (seq [attributes, rule "expression"]))⟩,
    ⟨"array", inBrackets (seq
      [attributes,
        either (seq [rule "expression", lit ";", rule "expression"])
          (commaList (seq [attributes, rule "expression"]))])⟩,
    ⟨"tuple", inParens (seq
      [attributes, Body.some (seq [rule "expression", lit ","]), opt (rule "expression")])⟩,
    ⟨"structValue", seq
      [oneOf [name, seq [opt (either (rule "path") (rule "turbofish")), lit "::", name],
          rule "turbofish"],
        inBraces (commaList (oneOf
          [seq [attributes, name],
            seq [attributes, either name (cls "integer"), lit ":", rule "expression"],
            seq [lit "..", rule "expression"]]))]⟩,
    ⟨"literal", oneOf
      [cls "string", cls "rawString", cls "character", anyLit ["true", "false"], cls "integer",
        cls "float"]⟩,
    ⟨"negative", seq [lit "-", either (cls "integer") (cls "float")]⟩]

/-- Patterns. -/
def patternRules : List Rule :=
  [⟨"pattern", oneOf
      [literal, rule "negative", primitive, name, rule "scopedName", softWords, rule "turbofish",
        inParens (commaList (either (rule "pattern") (rule "closure"))),
        seq [oneOf [name, rule "scopedName", rule "turbofish"],
          inParens (commaList (rule "pattern"))],
        seq [either name (rule "scopedType"),
          inBraces (commaList (either (rule "fieldPattern") (lit "..")))],
        seq [lit "ref", rule "pattern"], inBrackets (commaList (rule "pattern")),
        seq [name, lit "@", rule "pattern"], seq [lit "&", opt (lit "mut"), rule "pattern"],
        lit "..", seq [lit "mut", rule "pattern"],
        seq [rule "rangeEnd", anyLit ["...", "..=", ".."], rule "rangeEnd"],
        seq [rule "rangeEnd", lit ".."], seq [anyLit ["..=", ".."], rule "rangeEnd"],
        seq [rule "pattern", lit "|", rule "pattern"], seq [lit "|", rule "pattern"],
        rule "constBlock", rule "macroCall", lit "_"]⟩,
    ⟨"closure", seq
      [rule "closureHead",
        oneOf [rule "expression", lit "_", seq [opt (rule "result"), rule "block"]]]⟩,
    ⟨"fieldPattern", seq
      [opt (lit "ref"), opt (lit "mut"),
        either name (seq [either name (cls "integer"), lit ":", rule "pattern"])]⟩,
    ⟨"rangeEnd", oneOf [literal, rule "negative", rule "path"]⟩]

/-! ### Macros -/

/-- The tokens of macros that are neither names nor literals. -/
def macroPunctuation : List String :=
  ["+", "-", "*", "/", "%", "^", "!", "&", "|", "&&", "||", "<<", ">>", "+=", "-=", "*=", "/=",
    "%=", "^=", "&=", "|=", "<<=", ">>=", "=", "==", "!=", ">", "<", ">=", "<=", "@", "_", ".",
    "..", "...", "..=", ",", ";", ":", "::", "->", "=>", "#", "?", "'"]

/-- A token that means nothing of its own in a macro.  Every word is a name here. -/
def plainToken : Body :=
  oneOf [literal, name, anyLit macroPunctuation]

/-- Something in brackets of any of the three kinds. -/
def inAny (b : Body) : Body :=
  oneOf [inParens b, inBrackets b, inBraces b]

/-- Calls and definitions of macros. -/
def macroRules : List Rule :=
  [⟨"macroCall", seq
      [oneOf [rule "scopedName", name, softWords], lit "!", rule "tokenTree"]⟩,
    ⟨"tokenTree", inAny (many (oneOf [plainToken, lit "$", rule "tokenTree"]))⟩,
    ⟨"macroDefinition", seq
      [lit "macro_rules!", either name softWords,
        oneOf
          [seq [inParens (rule "macroRules"), lit ";"], seq [inParens done, lit ";"],
            seq [inBrackets (rule "macroRules"), lit ";"], seq [inBrackets done, lit ";"],
            inBraces (opt (rule "macroRules"))]]⟩,
    ⟨"macroRules", seq [sepBy (lit ";") (rule "macroRule"), opt (lit ";")]⟩,
    ⟨"macroRule", seq [rule "macroTree", lit "=>", rule "macroTree"]⟩,
    ⟨"macroTree", inAny (many (rule "macroToken"))⟩,
    ⟨"macroToken", oneOf
      [rule "macroTree", cls "metavariable", plainToken,
        seq [lit "$", inParens (many (rule "macroToken")), opt (cls "repetitionMark"),
          anyLit ["+", "*", "?"]]]⟩]

/-- All rules. -/
def rules : List Rule :=
  itemRules ++ boundRules ++ typeRules ++ expressionRules ++ patternRules ++ macroRules

/-- The automata of Rust. -/
def automaton : Automaton :=
  Automaton.ofRules rules

end CodeNotes.Grammar.Rust
