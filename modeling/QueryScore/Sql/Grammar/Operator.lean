/-
# QueryScore.Sql.Grammar.Operator -- expressions of operators

Operators are read from left to right: an operand takes the operators behind it as long as they
bind more strongly than the context. Some operators are signs, others are words, and some words
take more than one operand.
-/

import QueryScore.Sql.Grammar.Operand

namespace QueryScore.Sql

open QueryScore.Sql.Parser

/-! ## Powers of the operators -/

/-- The power of each operator that is a sign, with its written form; no form for a sign that binds
and yet joins nothing. -/
def signOperators : List (String × Nat × Option String) :=
  [("=", Power.comparison, some "="), ("==", Power.comparison, some "="),
    ("<>", Power.comparison, some "<>"), ("!=", Power.comparison, some "<>"),
    ("<", Power.comparison, some "<"), ("<=", Power.comparison, some "<="),
    (">", Power.comparison, some ">"), (">=", Power.comparison, some ">="),
    ("<=>", Power.comparison, some "<=>"), (":=", Power.comparison, some ":="),
    ("~", Power.comparison, some "~"), ("~*", Power.comparison, some "~*"),
    ("!~", Power.comparison, some "!~"), ("!~*", Power.comparison, some "!~*"),
    ("~~", Power.comparison, some "~~"), ("~~*", Power.comparison, some "~~*"),
    ("!~~", Power.comparison, some "!~~"), ("!~~*", Power.comparison, some "!~~*"),
    ("|", Power.bitOr, some "|"), ("@", Power.bitOr, none), ("^", Power.bitXor, some "^"),
    ("#", Power.bitXor, none),
    ("<<", Power.bitXor, some "<<"), (">>", Power.bitXor, some ">>"),
    ("&", Power.bitAnd, some "&"), ("+", Power.sum, some "+"), ("-", Power.sum, some "-"),
    ("*", Power.product, some "*"), ("/", Power.product, some "/"),
    ("//", Power.product, some "//"), ("%", Power.product, some "%"),
    ("||", Power.product, some "||"), ("::", Power.cast, none), ("!", Power.cast, none),
    ("[", Power.cast, none), ("&&", Power.cast, some "&&"), ("^@", Power.cast, some "^@"),
    ("->", Power.document, some "->"), ("->>", Power.document, some "->>"),
    ("#>", Power.document, some "#>"), ("#>>", Power.document, some "#>>"),
    ("@>", Power.document, some "@>"), ("<@", Power.document, some "<@"),
    ("#-", Power.document, some "#-"), ("@?", Power.document, some "@?"),
    ("@@", Power.document, some "@@")]

/-- The power of each operator that begins with a word. -/
def wordOperators : List (String × Nat) :=
  [("OR", Power.disjunction), ("AND", Power.conjunction), ("XOR", Power.exclusion),
    ("IS", Power.test), ("IN", Power.comparison), ("BETWEEN", Power.comparison),
    ("OVERLAPS", Power.comparison), ("OPERATOR", Power.comparison), ("LIKE", Power.pattern),
    ("ILIKE", Power.pattern), ("RLIKE", Power.pattern), ("REGEXP", Power.pattern),
    ("MATCH", Power.pattern), ("SIMILAR", Power.pattern), ("MEMBER", Power.pattern),
    ("DIV", Power.product)]

/-- The power of an operator that begins with NOT, by the word behind it. -/
def negatedPower (word : String) : Nat :=
  if ["IN", "BETWEEN"].contains word then Power.comparison
  else if ["LIKE", "ILIKE", "RLIKE", "REGEXP", "MATCH", "SIMILAR", "MEMBER"].contains word then
    Power.pattern
  else 0

/-- The power of the operator that comes next; 0 if none does. -/
def nextPower : Parser Nat := do
  match ← peek with
  | some (.sign text) => return ((signOperators.lookup text).map Prod.fst).getD 0
  | some token =>
    match token.keyword? with
    | some "NOT" => return ((← keywordAt 1).map negatedPower).getD 0
    | some "AT" =>
      return if (← keywordAt 1) = some "TIME" ∧ (← keywordAt 2) = some "ZONE" then Power.zone else 0
    | some word => return (wordOperators.lookup word).getD 0
    | none => return 0
  | none => return 0

/-! ## Operators between two operands -/

/-- The comparisons that may be asked of all or any of several values. -/
def quantifiable : List String :=
  ["=", "<>", "<", "<=", ">", ">=", "~", "~*", "!~", "!~*", "~~", "~~*", "!~~", "!~~*"]

/-- The values behind ANY, SOME or ALL: a query in brackets, or an expression in brackets. -/
def quantified (r : Rules) (power : Nat) : Parser (List Piece) := do
  unless ← atSign "(" do mismatch
  match ← keywordAt 1 with
  | some "SELECT" | some "WITH" =>
    let e ← r.expr power
    return if e.isSubquery then [.expr e] else [said "(", .expr e, said ")"]
  | _ =>
    drop 1
    let e ← r.expr power
    expectSign ")"
    return [said "(", .expr e, said ")"]

/-- Two operands joined by an operator. -/
def joinOperands (left : Expr) (op : String) (right : Expr) : Expr :=
  match op with
  | "AND" => .connective .and left right
  | "OR" => .connective .or left right
  | op => .form [.expr left, said (" " ++ op ++ " "), .expr right]

/-- The right side of an operator between two operands. -/
def rightSide (r : Rules) (power : Nat) (left : Expr) (op : String) : Parser Expr := do
  match ← oneOf ["ANY", "ALL", "SOME"] with
  | some quantifier =>
    let values ← quantified r power
    unless quantifiable.contains op do mismatch
    return .form ([.expr left, said (" " ++ op ++ " " ++ quantifier)] ++ values)
  | none => return joinOperands left op (← r.expr power)

/-- The name of an operator in `OPERATOR(…)`. -/
def operatorName : Parser (List Char) :=
  inBrackets do
    let names ← phrases do
      let text ← do
        match ← next with
        | .word name => pure name.render
        | .sign text => pure text.toList
        | _ => mismatch
      return (text, ← sign ".")
    return ['.'].intercalate names

/-! ## Operators of other shapes -/

/-- The test behind `IS`. -/
def isTest (r : Rules) (left : Expr) : Parser Expr := do
  for words in [["NULL"], ["NOT", "NULL"], ["TRUE"], ["NOT", "TRUE"], ["FALSE"], ["NOT", "FALSE"],
      ["UNKNOWN"], ["NOT", "UNKNOWN"]] do
    if ← accept words then return .form [.expr left, said (" IS " ++ " ".intercalate words)]
  if ← accept ["DISTINCT", "FROM"] then
    return .form [.expr left, said " IS DISTINCT FROM ", .expr (← r.anyExpr)]
  if ← accept ["NOT", "DISTINCT", "FROM"] then
    return .form [.expr left, said " IS NOT DISTINCT FROM ", .expr (← r.anyExpr)]
  let negated ← keyword "NOT"
  let normalForm ← oneOf ["NFC", "NFD", "NFKC", "NFKD"]
  expect ["NORMALIZED"]
  return .form [.expr left, said (" IS " ++ (if negated then "NOT " else "") ++
    ((normalForm.map (· ++ " ")).getD "") ++ "NORMALIZED")]

/-- The values behind `IN`. -/
def membership (r : Rules) (left : Expr) (op : String) : Parser Expr := do
  if ← keyword "UNNEST" then
    let e ← inBrackets r.anyExpr
    return .form [.expr left, said (op ++ "UNNEST("), .expr e, said ")"]
  inBrackets do
    match ← optional r.query with
    | some q => return .form [.expr left, said (op ++ "("), .query q, said ")"]
    | none =>
      let es ← r.exprs
      return .form ([.expr left, said (op ++ "(")] ++ commaExprs es ++ [said ")"])

/-- The bounds behind `BETWEEN`. -/
def between (r : Rules) (left : Expr) (op : String) : Parser Expr := do
  let low ← r.expr Power.comparison
  expect ["AND"]
  let high ← r.expr Power.comparison
  return .form [.expr left, said op, .expr low, said " AND ", .expr high]

/-- The escape behind a pattern, if it is there. -/
def escapeClause : Parser (List Piece) := do
  if ← keyword "ESCAPE" then
    let text ← value
    return [said " ESCAPE ", .text text]
  else return []

/-- The pattern behind `LIKE` and its relatives. -/
def patternMatch (r : Rules) (left : Expr) (op : String) : Parser Expr := do
  let e ← r.expr Power.pattern
  let escape ← escapeClause
  return .form ([.expr left, said op, .expr e] ++ escape)

/-- The pattern behind `LIKE` or `ILIKE`, of which there may be several. -/
def likePattern (r : Rules) (left : Expr) (op : String) : Parser Expr := do
  patternMatch r left (if ← keyword "ANY" then op ++ "ANY " else op)

/-- An operator that may be negated: its words, behind `NOT` or not. Before the pattern of `REGEXP`
the word `RLIKE` says nothing. -/
def negatable (r : Rules) (left : Expr) : Parser Expr := do
  let negation := if ← keyword "NOT" then " NOT " else " "
  match ← keywordAt 0 with
  | some "REGEXP" | some "RLIKE" =>
    let word ← expectOneOf ["REGEXP", "RLIKE"]
    if word = "REGEXP" then
      let _ ← keyword "RLIKE"
    let e ← r.expr Power.pattern
    return .form [.expr left, said (negation ++ word ++ " "), .expr e]
  | some "IN" => drop 1; membership r left (negation ++ "IN ")
  | some "BETWEEN" => drop 1; between r left (negation ++ "BETWEEN ")
  | some "LIKE" => drop 1; likePattern r left (negation ++ "LIKE ")
  | some "ILIKE" => drop 1; likePattern r left (negation ++ "ILIKE ")
  | some "SIMILAR" =>
    expect ["SIMILAR", "TO"]
    patternMatch r left (negation ++ "SIMILAR TO ")
  | _ => mismatch

/-- An operator that begins with a word. -/
def wordOperator (r : Rules) (power : Nat) (left : Expr) (word : String) : Parser Expr :=
  match word with
  | "AND" | "OR" | "XOR" | "OVERLAPS" => do
    drop 1
    rightSide r power left word
  | "OPERATOR" => do
    drop 1
    let name ← operatorName
    rightSide r power left ("OPERATOR(" ++ String.ofList name ++ ")")
  | "IS" => do
    drop 1
    isTest r left
  | "AT" => do
    expect ["AT", "TIME", "ZONE"]
    let zone ← r.expr power
    return .form [.expr left, said " AT TIME ZONE ", .expr zone]
  | "MEMBER" => do
    expect ["MEMBER", "OF"]
    let e ← inBrackets r.anyExpr
    return .form [.expr left, said " MEMBER OF(", .expr e, said ")"]
  | "MATCH" | "DIV" => mismatch
  | _ => negatable r left

/-- The operator that comes next with what is on its right. -/
def operation (r : Rules) (power : Nat) (left : Expr) : Parser Expr := do
  match ← peek with
  | some (.sign "::") =>
    drop 1
    let type ← dataType r
    return .form (.expr left :: said "::" :: type)
  | some (.sign text) =>
    match (signOperators.lookup text).bind Prod.snd with
    | some op =>
      drop 1
      rightSide r power left op
    | none => mismatch
  | some token =>
    match token.keyword? with
    | some word => wordOperator r power left word
    | none => mismatch
  | none => mismatch

/-- One more operator, if it binds more strongly than the context. -/
def operatorStep (r : Rules) (context : Nat) (left : Expr) : Parser (Option Expr) := do
  let power ← nextPower
  if context < power then return some (← operation r power left) else return none

/-- An expression of operators that bind more strongly than the context. -/
def exprOver (r : Rules) (context : Nat) : Parser Expr := do
  stepping (operatorStep r context) (← operand r)

end QueryScore.Sql
