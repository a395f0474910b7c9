/-
# QueryScore.Cypher.Grammar -- the grammar of the supported Cypher

Expressions are listed from the loosest binding to the tightest. Two heads are shared so that
nothing is parsed twice: a list comprehension begins like a list of one element, and a
parenthesized expression is tried as a path only where a relationship follows its group.
Keywords are read in either case and end where no identifier character follows; a variable, or
the first part of a function name, is no reserved word.
-/

import QueryScore.Cypher.Rule

namespace QueryScore.Cypher

open Peg

/-! ## Building blocks -/

/-- These characters. -/
def sign (s : String) : Peg Rule := .text s.toList

/-- A keyword. -/
def wholeWord (w : String) : Peg Rule := .rule (.keyword w)

/-- Items with commas between them. -/
def listed (item : Peg Rule) : Peg Rule := .seq item (.many (.seq (sign ",") item))

/-- Operands with an operator between them. -/
def chained (operand operator : Peg Rule) : Peg Rule :=
  .seq operand (.many (.seq operator operand))

/-- A character of an identifier. -/
def identChar : Peg Rule := alts [.letter, .digit, sign "_"]

/-- Any character but the first of `closing`. -/
def allBut (closing : Peg Rule) : Peg Rule := .seq (.absent closing) .any

/-- A name, plain or in back quotes. -/
def symbolicName : Peg Rule :=
  alts [.seq (alts [.letter, sign "_"]) (.many identChar),
    seqs [sign "`", .many (allBut (sign "`")), sign "`"]]

/-- The reserved words; a longer one stands before its prefixes. -/
def reservedWords : List String :=
  ["MATCH", "OPTIONAL", "ORDER", "OR", "WHERE", "RETURN", "WITH", "UNWIND", "UNION",
    "ASCENDING", "ASC", "AS", "BY", "SKIP", "LIMIT", "DESCENDING", "DESC", "DISTINCT", "AND",
    "XOR", "NOT", "IN", "IS", "NULL", "TRUE", "FALSE", "STARTS", "ENDS", "END", "CONTAINS",
    "CASE", "WHEN", "THEN", "ELSE"]

/-- No reserved word stands here as a whole word. -/
def unreserved : Peg Rule :=
  .absent (.seq (alts (reservedWords.map fun word => .word word.toList)) (.absent identChar))

/-- A string between two marks, in which a backslash hides the next character. -/
def stringBetween (mark : Peg Rule) : Peg Rule :=
  seqs [mark, .many (alts [.seq (sign "\\") .any, allBut mark]), mark]

/-- A relationship begins here. -/
def relationshipStart : Peg Rule :=
  seqs [.opt (sign "<"), sign "-", alts [sign "[", sign "-"]]

/-! ## Filler -/

/-- A blank. -/
def blank : Peg Rule := alts [sign " ", sign "\t", sign "\r", sign "\n"]

/-- The end of a line. -/
def lineEnd : Peg Rule := alts [sign "\n", sign "\r\n", sign "\r"]

/-- A comment, to the end of the line or between its marks. -/
def comment : Peg Rule :=
  alts [.seq (sign "//") (.many (allBut lineEnd)),
    seqs [sign "/*", .many (allBut (sign "*/")), sign "*/"]]

/-- Blanks and comments. -/
def filler : Peg Rule := .seq (.many blank) (.many (.seq comment (.many blank)))

/-! ## Rules -/

/-- The body of a rule. -/
def Rule.body : Rule → Peg Rule
  -- The end of the text is a part of the rule, so a rest of the text fails it.
  | .query =>
    seqs [.start, .rule .singleQuery, .many (.seq (.rule .union) (.rule .singleQuery)),
      .opt (sign ";"), .rule .endOfText]
  | .union => .seq (wholeWord "UNION") (.opt (wholeWord "ALL"))
  | .singleQuery =>
    .seq (.many (alts [.rule .matchClause, .rule .unwindClause, .rule .withClause]))
      (.rule .returnClause)
  | .matchClause =>
    seqs [.opt (wholeWord "OPTIONAL"), wholeWord "MATCH", .rule .pattern, .opt (.rule .whereClause)]
  | .unwindClause =>
    seqs [wholeWord "UNWIND", .rule .expression, wholeWord "AS", .rule .variable]
  | .withClause => seqs [wholeWord "WITH", .rule .projectionBody, .opt (.rule .whereClause)]
  | .returnClause => .seq (wholeWord "RETURN") (.rule .projectionBody)
  | .whereClause => .seq (wholeWord "WHERE") (.rule .expression)
  | .projectionBody =>
    seqs [.opt (wholeWord "DISTINCT"), .rule .projectionItems, .opt (.rule .orderClause),
      .opt (.rule .skipClause), .opt (.rule .limitClause)]
  | .projectionItems =>
    .seq (alts [.rule .star, .rule .projectionItem])
      (.many (.seq (sign ",") (.rule .projectionItem)))
  | .projectionItem => .seq (.rule .expression) (.opt (.seq (wholeWord "AS") (.rule .variable)))
  | .star => sign "*"
  | .orderClause => seqs [wholeWord "ORDER", wholeWord "BY", listed (.rule .sortItem)]
  | .sortItem => .seq (.rule .expression) (.opt (.rule .sortDirection))
  | .sortDirection =>
    alts [wholeWord "DESCENDING", wholeWord "DESC", wholeWord "ASCENDING", wholeWord "ASC"]
  | .skipClause => .seq (wholeWord "SKIP") (.rule .expression)
  | .limitClause => .seq (wholeWord "LIMIT") (.rule .expression)
  | .pattern => listed (.rule .patternPart)
  | .patternPart => .seq (.opt (.seq (.rule .variable) (sign "="))) (.rule .patternElement)
  | .patternElement =>
    alts [.seq (.rule .nodePattern)
        (.many (.seq (.rule .relationshipPattern) (.rule .nodePattern))),
      seqs [sign "(", .rule .patternElement, sign ")"]]
  | .nodePattern =>
    seqs [sign "(", .opt (.rule .variable), .opt (.rule .nodeLabels), .opt (.rule .properties),
      sign ")"]
  | .nodeLabels => some1 (.seq (sign ":") (.rule .labelName))
  | .labelName => symbolicName
  | .relationshipPattern =>
    alts [seqs [.rule .leftArrow, sign "-", .opt (.rule .relationshipDetail), sign "-",
        .opt (.rule .rightArrow)],
      seqs [sign "-", .opt (.rule .relationshipDetail), sign "-", .opt (.rule .rightArrow)]]
  | .leftArrow => sign "<"
  | .rightArrow => sign ">"
  | .relationshipDetail =>
    seqs [sign "[", .opt (.rule .variable), .opt (.rule .relationshipTypes),
      .opt (.rule .rangeLiteral), .opt (.rule .properties), sign "]"]
  | .relationshipTypes =>
    seqs [sign ":", .rule .relTypeName,
      .many (seqs [sign "|", .opt (sign ":"), .rule .relTypeName])]
  | .relTypeName => symbolicName
  | .rangeLiteral =>
    seqs [sign "*", .opt (.rule .integerLiteral),
      .opt (.seq (sign "..") (.opt (.rule .integerLiteral)))]
  | .properties => alts [.rule .mapLiteral, .rule .parameter]
  | .expression => .rule .orExpression
  | .orExpression => chained (.rule .xorExpression) (wholeWord "OR")
  | .xorExpression => chained (.rule .andExpression) (wholeWord "XOR")
  | .andExpression => chained (.rule .notExpression) (wholeWord "AND")
  | .notExpression => .seq (.many (wholeWord "NOT")) (.rule .comparisonExpression)
  | .comparisonExpression =>
    chained (.rule .predicateExpression) (.rule .comparisonOperator)
  -- A sign stands before those it starts with, since the first alternative that matches is taken.
  | .comparisonOperator =>
    alts [sign "=~", sign "<>", sign "!=", sign "<=", sign ">=", sign "=", sign "<", sign ">"]
  | .predicateExpression => .seq (.rule .additiveExpression) (.many (.rule .predicateSuffix))
  | .predicateSuffix =>
    alts [seqs [wholeWord "STARTS", wholeWord "WITH", .rule .additiveExpression],
      seqs [wholeWord "ENDS", wholeWord "WITH", .rule .additiveExpression],
      .seq (wholeWord "CONTAINS") (.rule .additiveExpression),
      .seq (wholeWord "IN") (.rule .additiveExpression),
      seqs [wholeWord "IS", .opt (wholeWord "NOT"), wholeWord "NULL"]]
  | .additiveExpression =>
    chained (.rule .multiplicativeExpression) (.rule .additiveOperator)
  | .additiveOperator => alts [sign "+", sign "-"]
  | .multiplicativeExpression =>
    chained (.rule .powerExpression) (.rule .multiplicativeOperator)
  | .multiplicativeOperator => alts [sign "*", sign "/", sign "%"]
  | .powerExpression => chained (.rule .unaryExpression) (sign "^")
  | .unaryExpression => .seq (.opt (.rule .unaryOperator)) (.rule .postfixExpression)
  | .unaryOperator => alts [sign "-", sign "+"]
  | .postfixExpression =>
    .seq (.rule .atom)
      (.many (alts [.rule .propertyLookup, .rule .indexLookup, .rule .nodeLabels]))
  | .propertyLookup => .seq (sign ".") (.rule .propertyKey)
  | .indexLookup =>
    seqs [sign "[", .opt (.rule .expression), .opt (.seq (sign "..") (.opt (.rule .expression))),
      sign "]"]
  | .atom =>
    alts [.rule .countStar, .rule .caseExpression, .rule .nullLiteral, .rule .booleanLiteral,
      .rule .numberLiteral, .rule .stringLiteral, .rule .parameter, .rule .listLiteral,
      .rule .mapLiteral, .rule .patternPredicate, .rule .functionInvocation,
      .rule .parenthesizedExpression, .rule .variable]
  | .countStar => seqs [wholeWord "COUNT", sign "(", sign "*", sign ")"]
  | .functionInvocation =>
    seqs [.rule .functionName, sign "(", .opt (wholeWord "DISTINCT"),
      .opt (listed (.rule .expression)), sign ")"]
  -- Only the first part of a dotted name may be no reserved word.
  | .functionName => seqs [unreserved, symbolicName, .many (.seq (sign ".") symbolicName)]
  -- The expression behind `CASE` may be missing, and `WHEN` does not begin one.
  | .caseExpression =>
    seqs [wholeWord "CASE", .opt (.seq (.absent (wholeWord "WHEN")) (.rule .expression)),
      some1 (.rule .caseAlternative), .opt (.seq (wholeWord "ELSE") (.rule .expression)),
      wholeWord "END"]
  | .caseAlternative =>
    seqs [wholeWord "WHEN", .rule .expression, wholeWord "THEN", .rule .expression]
  | .parenthesizedExpression => seqs [sign "(", .rule .expression, sign ")"]
  -- Whether a parenthesis opens a path is decided by what stands behind its group.
  | .patternPredicate =>
    seqs [.present (.seq (.rule .parenGroup) relationshipStart), .rule .nodePattern,
      some1 (.seq (.rule .relationshipPattern) (.rule .nodePattern))]
  -- Parentheses in strings and in back quotes do not count.
  | .parenGroup =>
    seqs [sign "(",
      .many (alts [.rule .parenGroup, .rule .stringLiteral,
        seqs [sign "`", .many (allBut (sign "`")), sign "`"],
        allBut (alts [sign "(", sign ")"])]),
      sign ")"]
  | .nullLiteral => wholeWord "NULL"
  | .booleanLiteral => alts [wholeWord "TRUE", wholeWord "FALSE"]
  | .numberLiteral =>
    alts [seqs [some1 .digit, .opt (.seq (sign ".") (some1 .digit)),
        .opt (seqs [.word ['e'], .opt (alts [sign "+", sign "-"]), some1 .digit])],
      -- A number may begin with its point, but then has no exponent.
      .seq (sign ".") (some1 .digit)]
  | .integerLiteral => some1 .digit
  | .stringLiteral => alts [stringBetween (sign "'"), stringBetween (sign "\"")]
  -- Behind the first element stands the tail of a comprehension, or the other elements.
  | .listLiteral =>
    seqs [sign "[",
      .opt (.seq (.rule .expression)
        (alts [.rule .comprehensionTail, .many (.seq (sign ",") (.rule .expression))])),
      sign "]"]
  | .comprehensionTail =>
    alts [seqs [wholeWord "WHERE", .rule .expression, .opt (.seq (sign "|") (.rule .expression))],
      .seq (sign "|") (.rule .expression)]
  | .mapLiteral => seqs [sign "\x7b", .opt (listed (.rule .mapEntry)), sign "\x7d"]
  | .mapEntry => seqs [.rule .propertyKey, sign ":", .rule .expression]
  | .parameter => .seq (sign "$") (alts [symbolicName, some1 .digit])
  | .variable => .seq unreserved symbolicName
  | .propertyKey => symbolicName
  | .endOfText => .stop
  | .keyword w => .seq (.word w.toList) (.absent identChar)

/-- The grammar of the supported Cypher. -/
def grammar : Grammar Rule := ⟨Rule.kind, Rule.body, filler⟩

end QueryScore.Cypher
