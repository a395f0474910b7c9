/-
# QueryScore.Cypher.Rule -- the rules of the Cypher grammar

The supported part of Cypher reads from a graph: patterns, conditions, projections, lists
turned into rows, and unions, with the usual expression language. Each rule has the name under
which it is reported in a tree.
-/

import QueryScore.Peg

namespace QueryScore.Cypher

/-- A rule of the grammar. -/
inductive Rule where
  /-- A whole query: single queries joined by unions. -/
  | query
  /-- The word between two single queries. -/
  | union
  /-- Clauses that read, and one that returns. -/
  | singleQuery
  /-- Patterns to find in the graph, with a condition. -/
  | matchClause
  /-- A list turned into rows. -/
  | unwindClause
  /-- A projection that the next clauses build on. -/
  | withClause
  /-- The projection that is the result. -/
  | returnClause
  /-- A condition. -/
  | whereClause
  /-- What is projected, in which order, and which part of it. -/
  | projectionBody
  /-- The items of a projection. -/
  | projectionItems
  /-- An expression with an optional name. -/
  | projectionItem
  /-- All variables in scope. -/
  | star
  /-- The sort keys of a projection. -/
  | orderClause
  /-- One sort key. -/
  | sortItem
  /-- The direction of a sort key. -/
  | sortDirection
  /-- How many rows are left out at the start. -/
  | skipClause
  /-- How many rows are kept. -/
  | limitClause
  /-- Paths, with commas between them. -/
  | pattern
  /-- A path with an optional name. -/
  | patternPart
  /-- A path: nodes with relationships between them. -/
  | patternElement
  /-- A node of a path. -/
  | nodePattern
  /-- The labels of a node. -/
  | nodeLabels
  /-- One label. -/
  | labelName
  /-- A relationship of a path. -/
  | relationshipPattern
  /-- The head of an arrow to the left. -/
  | leftArrow
  /-- The head of an arrow to the right. -/
  | rightArrow
  /-- What is said of a relationship in brackets. -/
  | relationshipDetail
  /-- The types of a relationship. -/
  | relationshipTypes
  /-- One relationship type. -/
  | relTypeName
  /-- The length of a path of relationships. -/
  | rangeLiteral
  /-- Properties of a node or a relationship. -/
  | properties
  /-- An expression. -/
  | expression
  /-- Operands of `OR`. -/
  | orExpression
  /-- Operands of `XOR`. -/
  | xorExpression
  /-- Operands of `AND`. -/
  | andExpression
  /-- An operand of `NOT`. -/
  | notExpression
  /-- Compared operands. -/
  | comparisonExpression
  /-- A comparison. -/
  | comparisonOperator
  /-- An operand with tests behind it. -/
  | predicateExpression
  /-- A test of strings, lists or null. -/
  | predicateSuffix
  /-- Summands. -/
  | additiveExpression
  /-- Plus or minus between summands. -/
  | additiveOperator
  /-- Factors. -/
  | multiplicativeExpression
  /-- The operators between factors. -/
  | multiplicativeOperator
  /-- Powers. -/
  | powerExpression
  /-- An operand with an optional sign. -/
  | unaryExpression
  /-- A sign. -/
  | unaryOperator
  /-- An atom with look-ups behind it. -/
  | postfixExpression
  /-- A property of a value. -/
  | propertyLookup
  /-- An element or a slice of a list. -/
  | indexLookup
  /-- The innermost expressions. -/
  | atom
  /-- The count of all rows. -/
  | countStar
  /-- A function applied to arguments. -/
  | functionInvocation
  /-- The name of a function, with dots. -/
  | functionName
  /-- A choice by cases. -/
  | caseExpression
  /-- One case. -/
  | caseAlternative
  /-- An expression in parentheses. -/
  | parenthesizedExpression
  /-- A path as a condition. -/
  | patternPredicate
  /-- Anything in balanced parentheses; only looked at. -/
  | parenGroup
  /-- The missing value. -/
  | nullLiteral
  /-- A truth value. -/
  | booleanLiteral
  /-- A number. -/
  | numberLiteral
  /-- A whole number. -/
  | integerLiteral
  /-- A string. -/
  | stringLiteral
  /-- A list, written out or by comprehension. -/
  | listLiteral
  /-- The condition and the result of a comprehension. -/
  | comprehensionTail
  /-- A map. -/
  | mapLiteral
  /-- One entry of a map. -/
  | mapEntry
  /-- A parameter of the query. -/
  | parameter
  /-- A variable. -/
  | variable
  /-- The key of a property. -/
  | propertyKey
  /-- The end of the text. -/
  | endOfText
  /-- A keyword, whole and in any case. -/
  | keyword (word : String)
  deriving DecidableEq, Repr

/-- The name of a rule. -/
def Rule.name : Rule → String
  | .query => "query"
  | .union => "union"
  | .singleQuery => "single_query"
  | .matchClause => "match_clause"
  | .unwindClause => "unwind_clause"
  | .withClause => "with_clause"
  | .returnClause => "return_clause"
  | .whereClause => "where_clause"
  | .projectionBody => "projection_body"
  | .projectionItems => "projection_items"
  | .projectionItem => "projection_item"
  | .star => "star"
  | .orderClause => "order_clause"
  | .sortItem => "sort_item"
  | .sortDirection => "sort_direction"
  | .skipClause => "skip_clause"
  | .limitClause => "limit_clause"
  | .pattern => "pattern"
  | .patternPart => "pattern_part"
  | .patternElement => "pattern_element"
  | .nodePattern => "node_pattern"
  | .nodeLabels => "node_labels"
  | .labelName => "label_name"
  | .relationshipPattern => "relationship_pattern"
  | .leftArrow => "left_arrow"
  | .rightArrow => "right_arrow"
  | .relationshipDetail => "relationship_detail"
  | .relationshipTypes => "relationship_types"
  | .relTypeName => "rel_type_name"
  | .rangeLiteral => "range_literal"
  | .properties => "properties"
  | .expression => "expression"
  | .orExpression => "or_expression"
  | .xorExpression => "xor_expression"
  | .andExpression => "and_expression"
  | .notExpression => "not_expression"
  | .comparisonExpression => "comparison_expression"
  | .comparisonOperator => "comparison_operator"
  | .predicateExpression => "predicate_expression"
  | .predicateSuffix => "predicate_suffix"
  | .additiveExpression => "additive_expression"
  | .additiveOperator => "additive_operator"
  | .multiplicativeExpression => "multiplicative_expression"
  | .multiplicativeOperator => "multiplicative_operator"
  | .powerExpression => "power_expression"
  | .unaryExpression => "unary_expression"
  | .unaryOperator => "unary_operator"
  | .postfixExpression => "postfix_expression"
  | .propertyLookup => "property_lookup"
  | .indexLookup => "index_lookup"
  | .atom => "atom"
  | .countStar => "count_star"
  | .functionInvocation => "function_invocation"
  | .functionName => "function_name"
  | .caseExpression => "case_expression"
  | .caseAlternative => "case_alternative"
  | .parenthesizedExpression => "parenthesized_expression"
  | .patternPredicate => "pattern_predicate"
  | .parenGroup => "paren_group"
  | .nullLiteral => "null_literal"
  | .booleanLiteral => "boolean_literal"
  | .numberLiteral => "number_literal"
  | .integerLiteral => "integer_literal"
  | .stringLiteral => "string_literal"
  | .listLiteral => "list_literal"
  | .comprehensionTail => "comprehension_tail"
  | .mapLiteral => "map_literal"
  | .mapEntry => "map_entry"
  | .parameter => "parameter"
  | .variable => "variable"
  | .propertyKey => "property_key"
  | .endOfText => "EOI"
  | .keyword word => "kw_" ++ String.ofList (word.toList.map Text.asciiLower)

/-- The kind of a rule. Names, keywords and literals are atomic. -/
def Rule.kind : Rule → RuleKind
  | .labelName | .relTypeName | .functionName | .numberLiteral | .integerLiteral
    | .stringLiteral | .parameter | .variable | .propertyKey | .keyword _ => .atomic
  | .parenGroup => .silent
  | _ => .normal

end QueryScore.Cypher
